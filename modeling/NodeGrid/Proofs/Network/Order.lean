import NodeGrid.Proofs.Fabric.Precedence
import NodeGrid.Proofs.Network.Trace

/-!
# Networks that keep calls in order

If no channel has more than two users, the calls on every channel end in the order in
which they were issued (`isFifo_of_path`).

What has to be shown for this is that the way is clear for every member that begins a
step.  In lockstep nothing is ready when a tick begins, and whatever the visits of a
tick make ready does not concern the members that are still to be visited.  Under
first settled, the tasks that the last tick has left ready are resumed before any
member is visited, and those that they wake are receivers whose values have been
promised.  `Prepared` says how far this has come at each stage of a tick.
-/

namespace NodeGrid.Network

variable {m n : ℕ}

/-- What a stage of a tick relies on. -/
def Prepared (network : Network m n) (users : Fin n → Finset (Fin m)) : Stage m → Prop
  | .resuming => True
  -- those that are ready beyond the given number have been woken in this tick
  | .carrying count => ∀ task ∈ network.fabric.ready.drop count, ∀ operation,
      network.engaged task = some operation → network.fabric.IsPromised operation
  | .visiting rest =>
      rest.Nodup ∧ ∀ task ∈ rest, network.fabric.Clear users network.engaged task

/-- The network is sound, and its calls are in order and will stay so. -/
structure InOrder (network : Network m n) (users : Fin n → Finset (Fin m)) (stage : Stage m)
    (log : Log (Fin m) n) : Prop where
  sound : network.Sound users
  reaches : ∀ task k, (network.member task).Reaches k → task ∈ users k
  ordered : network.fabric.Ordered users network.engaged log
  prepared : network.Prepared users stage

variable {network next : Network m n} {users : Fin n → Finset (Fin m)} {first second : Stage m}
  {log deeds : Log (Fin m) n} {loads : Fin m → Prop} {task : Fin m}

theorem engaged_load (network : Network m n) (task : Fin m) (source : String) :
    (network.load task source).engaged = network.engaged := by
  funext other
  by_cases hother : other = task
  · subst hother
    rw [engaged, member_load_self, engaged]
    cases network.member other <;> rfl
  · rw [engaged, member_load_of_ne hother, engaged]

theorem engaged_stall (network : Network m n) (task : Fin m) (inFlight : Bool)
    (fabric : Fabric (Fin m) n) :
    (network.put task (network.member task).stall inFlight fabric).engaged = network.engaged := by
  have hstall : (network.member task).stall.engagement = network.engaged task := by
    rw [engaged]
    cases network.member task <;> rfl
  rw [engaged_put, hstall, Function.update_eq_self]

/-! ## Turning to the next stage -/

theorem clear_of_ready_nil (hready : network.fabric.ready = []) :
    network.fabric.Clear users network.engaged task := by
  intro other hmem
  rw [hready] at hmem
  cases hmem

theorem Turn.prepared (hturn : network.Turn first second) (hprepared : network.Prepared users first) :
    network.Prepared users second := by
  cases hturn with
  | lockstep hdiscipline hready =>
      exact ⟨List.nodup_finRange m, fun _ _ => clear_of_ready_nil hready⟩
  | firstSettled hdiscipline =>
      intro task hmem
      rw [List.drop_length] at hmem
      cases hmem
  | carried =>
      refine ⟨List.nodup_finRange m, fun _ _ other hmem _ operation hengaged _ => ?_⟩
      exact hprepared other hmem operation hengaged
  | idle hready => exact ⟨List.nodup_finRange m, fun _ _ => clear_of_ready_nil hready⟩
  | visited => exact trivial

/-! ## Steps keep the order -/

/-- A task that goes on while others are carried over leaves only receivers behind
whose values have been promised. -/
theorem prepared_of_resumes {ready : List (Fin m)} {member : Participant n} {inFlight : Bool}
    {fabric : Fabric (Fin m) n} (hinorder : network.InOrder users first log)
    (hstages : first.Resumes second) (hready : network.fabric.ready = task :: ready)
    (hhands : network.fabric.Hands users network.engaged task fabric) :
    (network.put task member inFlight fabric).Prepared users second := by
  cases hstages with
  | resuming => exact trivial
  | @carrying count =>
      obtain ⟨woken, hrest, hwoken⟩ := hhands.woken
      have hnodup := hinorder.sound.fabric.ready_nodup
      have hapart := hinorder.ordered.apart
      have hprepared := hinorder.prepared
      -- the one that goes on was in front of those that are carried over
      simp only [Prepared] at hprepared
      rw [hready, List.drop_succ_cons] at hprepared
      rw [hready, List.nodup_cons] at hnodup
      rw [hready, List.pairwise_cons] at hapart
      intro other hmem operation hengaged
      have hfabric : (network.put task member inFlight fabric).fabric = fabric := rfl
      rw [hfabric, hrest, hready, List.erase_cons_head, List.drop_append, List.mem_append] at hmem
      rw [hfabric]
      -- one of those left is carried over, or has just been woken
      rcases hmem with hcarried | hfresh
      · have hother := List.mem_of_mem_drop hcarried
        have hne : other ≠ task := ne_of_mem_of_not_mem hother hnodup.1
        rw [engaged_put, Function.update_of_ne hne] at hengaged
        refine hhands.promised operation (hapart.1 other hother operation hengaged) ?_
        exact hprepared other hcarried operation hengaged
      · obtain ⟨hne, hpromised⟩ := hwoken other (List.mem_of_mem_drop hfresh)
        rw [engaged_put, Function.update_of_ne hne] at hengaged
        exact hpromised operation hengaged

theorem Step.prepared_ordered (hstep : Step loads first network deeds second next)
    (hcard : ∀ k, (users k).card ≤ 2) (hinorder : network.InOrder users first log) :
    next.fabric.Ordered users next.engaged (log ++ deeds) ∧ next.Prepared users second := by
  obtain ⟨hsound, hreaches, hordered, hprepared⟩ := hinorder
  cases hstep with
  | @begin _ task rest progress member fabric hidle hmember =>
      have hrest := hsound.idle_of_isPending hidle
      obtain ⟨hnodup, hclear⟩ := hprepared
      rw [List.nodup_cons] at hnodup
      have hadvances := hordered.begins hsound.fabric hcard (hreaches task) hrest
        (hclear task List.mem_cons_self) ((hsound.members task).begins_of_step hrest hmember)
      rw [engaged_put]
      refine ⟨hadvances.ordered, hnodup.2, fun other hmem => ?_⟩
      rw [engaged_put]
      exact hadvances.clear other (ne_of_mem_of_not_mem hmem hnodup.1)
        (hclear other (List.mem_cons_of_mem task hmem))
  | @withdraw _ task rest member fabric hpending hmember =>
      have hwithdraws := (hsound.members task).withdraws_of_withdraw hmember
      obtain ⟨-, hengagement, -⟩ :=
        ((hsound.members task).withdraw hsound.fabric).of_ok hmember member fabric rfl
      obtain ⟨hwithdrawn, hclear⟩ := hordered.withdraws hsound.fabric hcard hwithdraws
      rw [engaged_put, hengagement]
      refine ⟨hwithdrawn, hprepared.1, fun other hmem => ?_⟩
      rw [engaged_put, hengagement]
      exact hclear other (hprepared.2 other hmem)
  | @stall _ task rest hpending =>
      rw [engaged_stall, List.append_nil]
      refine ⟨hordered, (List.nodup_cons.mp hprepared.1).2, fun other hmem => ?_⟩
      rw [engaged_stall]
      exact hprepared.2 other (List.mem_cons_of_mem task hmem)
  | @resume _ task ready progress member fabric _ _ hstages hready hmember =>
      have hengaged : (network.member task).engagement ≠ none :=
        Option.isSome_iff_ne_none.mp (hsound.fabric.engaged_of_ready task (by simp [hready]))
      -- what is handed on is what the others that are carried over have been promised
      obtain ⟨hadvances, hhands⟩ := hordered.resumes hsound.fabric hcard (hreaches task) hready rfl
        ((hsound.members task).resumes_of_resume hengaged hmember)
      have htrace : network.resumeTrace =
          logged task ((network.member task).resumeDeeds task (network.fabric.withReady ready)) := by
        rw [resumeTrace, hready]
      rw [engaged_put, htrace]
      refine ⟨hadvances.ordered, ?_⟩
      exact prepared_of_resumes ⟨hsound, hreaches, hordered, hprepared⟩ hstages hready hhands
  | turn hturn =>
      rw [List.append_nil]
      exact ⟨hordered, hturn.prepared hprepared⟩
  | load hload =>
      rw [engaged_load, List.append_nil]
      exact ⟨hordered, trivial⟩

/-- Every step of a network keeps its calls in order. -/
theorem InOrder.step (hinorder : network.InOrder users first log)
    (hcard : ∀ k, (users k).card ≤ 2) (hstep : Step loads first network deeds second next) :
    next.InOrder users second (log ++ deeds) := by
  obtain ⟨hordered, hprepared⟩ := hstep.prepared_ordered hcard hinorder
  refine ⟨hstep.sound hinorder.sound fun task _ => hinorder.reaches task, ?_, hordered, hprepared⟩
  intro task k hk
  rw [hstep.reaches_eq task] at hk
  exact hinorder.reaches task k hk

/-- Whatever a network does from the beginning on, it keeps its calls in order. -/
theorem InOrder.path (hinorder : network.InOrder users first log)
    (hcard : ∀ k, (users k).card ≤ 2) (hpath : Path loads first network deeds second next) :
    next.InOrder users second (log ++ deeds) := by
  induction hpath generalizing log with
  | nil => simpa using hinorder
  | cons hstep hrest ih =>
      rw [← List.append_assoc]
      exact ih (hinorder.step hcard hstep)

/-! ## First in, first out -/

/-- A fabric in which nothing has happened is ordered. -/
theorem ordered_nil {fabric : Fabric (Fin m) n} {engaged : Fin m → Option (Engagement n)}
    (hready : fabric.ready = []) (hidle : ∀ task, engaged task = none) :
    fabric.Ordered users engaged [] where
  sends k := by
    -- nobody is engaged, so nobody in the line is calling
    have hnone : ∀ line : List (Fin m), line.filterMap (senderCall engaged k) = [] := by
      intro line
      rw [List.filterMap_eq_nil_iff]
      intro task _
      simp [senderCall, hidle task]
    rw [InLine, hnone]
    rfl
  receives k := by
    have hnone : ∀ line : List (Fin m), line.filterMap (receiverCall engaged k) = [] := by
      intro line
      rw [List.filterMap_eq_nil_iff]
      intro task _
      simp [receiverCall, hidle task]
    rw [InLine, hnone]
    rfl
  apart := by
    rw [hready]
    exact List.Pairwise.nil

/-- If the values taken out of a channel are the first ones put into it, and calls end
in the order in which they were issued, then the channel is first in, first out. -/
theorem isFifo_of_ordered {fabric : Fabric (Fin m) n} {engaged : Fin m → Option (Engagement n)}
    (hordered : fabric.Ordered users engaged log) {k : Fin n}
    (hbegins : receivedOn k log <+: sentOn k log) : IsFifo k log where
  received := by
    intro index call value hcall hpassed
    rw [hordered.receives k, List.getElem?_append] at hcall
    split at hcall
    · rename_i hindex
      rw [List.getElem?_map] at hcall
      obtain ⟨taken, htaken, rfl⟩ := Option.map_eq_some_iff.mp hcall
      cases hpassed
      have hsent : (sentOn k log)[index]? = some value := by
        obtain ⟨later, hlater⟩ := hbegins
        rw [← hlater, List.getElem?_append_left (by simpa using hindex), htaken]
      refine ⟨.sent value, ?_, rfl⟩
      have hlength : index < ((sentOn k log).map (Call.sent (τ := Fin m))).length := by
        rw [List.length_map]
        exact (List.getElem?_eq_some_iff.mp hsent).1
      rw [hordered.sends k, List.getElem?_append_left hlength, List.getElem?_map, hsent]
      rfl
    -- a call that has ended is not that of a task in line
    · obtain ⟨task, -, hline⟩ := List.mem_filterMap.mp (List.mem_of_getElem? hcall)
      rw [passed_of_receiverCall hline] at hpassed
      cases hpassed
  sent := by
    intro call hmem value hpassed
    rw [hordered.sends k, List.mem_append] at hmem
    rcases hmem with hended | hline
    · obtain ⟨put, -, rfl⟩ := List.mem_map.mp hended
      exact hpassed
    · obtain ⟨task, -, hline⟩ := List.mem_filterMap.mp hline
      rw [passed_of_senderCall hline] at hpassed
      cases hpassed

open Classical in
/-- The members that can reach a channel. -/
noncomputable def reaching (network : Network m n) (k : Fin n) : Finset (Fin m) :=
  Finset.univ.filter fun task => (network.member task).Reaches k

theorem mem_reaching {k : Fin n} : task ∈ network.reaching k ↔ (network.member task).Reaches k := by
  classical
  simp [reaching]

/-- If no channel has more than two users, every channel is first in, first out. -/
theorem isFifo_of_path (hsound : network.Sound users)
    (hreaches : ∀ task k, (network.member task).Reaches k → task ∈ users k)
    (hcard : ∀ k, (users k).card ≤ 2) (hready : network.fabric.ready = [])
    (hidle : ∀ task, network.engaged task = none)
    (hempty : ∀ k, (network.fabric.channel k).buffer = [])
    (hpath : Path loads .resuming network deeds second next) (k : Fin n) : IsFifo k deeds := by
  have hinorder : network.InOrder users .resuming [] :=
    ⟨hsound, hreaches, ordered_nil hready hidle, trivial⟩
  refine isFifo_of_ordered (hinorder.path hcard hpath).ordered ?_
  have hbuffer := buffer_replay (k := k) (hpath.replay hsound fun task _ => hreaches task)
  rw [show (network.fabric.channels.get k).buffer = [] from hempty k, List.nil_append] at hbuffer
  exact ⟨_, hbuffer.symm⟩

end NodeGrid.Network
