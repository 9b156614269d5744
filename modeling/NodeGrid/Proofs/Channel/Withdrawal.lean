import NodeGrid.Proofs.Channel.Course

/-!
# Withdrawals go unnoticed

An operation that is started, has to wait and is taken back leaves no trace: all other
operations get the same answers and wake the same tasks as if it had never been started
(`Course.erase_withdrawn`).  This holds for every send, and for a receive while it is the only
one that waits.

The two semaphores count differently while the operation waits, so runs with and without
it cannot be compared state by state.  Instead, the withdrawal is moved towards the
beginning of the run.  If it is possible after an action, then it was possible before it,
and the action gets the same answer after the withdrawal (`Sound.withdraw_before`).  So it
could have followed the start of the operation at once, and these two cancel out
(`Sound.withdraw_send_at_once`, `Sound.withdraw_receive_at_once`).

A receive whose announcement wakes a sender finds no free slot to retract, and this does
not change before another receive is started.  Such a receive is never taken back.
-/

namespace NodeGrid

/-! ## Leaving the line early -/

namespace Semaphore

variable {τ : Type} {semaphore rest next : Semaphore τ} {task other : τ}

/-- A semaphore owes something to whoever stands in its line. -/
theorem Serves.permits_neg {parked : τ → Prop} (hserves : semaphore.Serves parked)
    (hmem : task ∈ semaphore.waiters) : semaphore.permits.toInt < 0 := by
  by_contra hnot
  rw [hserves.waiters_eq_nil_iff.mpr (not_lt.mp hnot)] at hmem
  cases hmem

variable [DecidableEq τ]

theorem cancel_of_mem (hmem : task ∈ semaphore.waiters) :
    semaphore.cancel task =
      some { permits := semaphore.permits + 1, waiters := semaphore.waiters.erase task } :=
  if_pos hmem

/-- Whoever leaves the line right after joining it changes nothing. -/
theorem cancel_lineUp (hout : task ∉ semaphore.waiters) :
    cancel { permits := semaphore.permits - 1, waiters := semaphore.waiters ++ [task] } task =
      some semaphore := by
  rw [cancel_of_mem (List.mem_append_right _ (List.mem_singleton_self task)),
    List.erase_append_right _ hout, List.erase_cons_head, List.append_nil, Int64.sub_add_cancel]

/-- Another task has to wait in any case. -/
theorem cancel_wait {parked : τ → Prop} (hserves : semaphore.Serves parked)
    (hlow : -2 ^ 63 < semaphore.permits.toInt) (hcancel : semaphore.cancel task = some rest)
    {answer : Acquire} (hwait : semaphore.wait other = (answer, next)) :
    ∃ late, rest.wait other = (answer, late) ∧ next.cancel task = some late := by
  obtain ⟨hmem, hwaiters⟩ := waiters_cancel hcancel
  have hfree := hserves.permits_cancel_nonpos hcancel
  have hrest := permits_cancel hcancel
  have howed := hserves.permits_neg hmem
  have hleft : rest.permits.toInt = semaphore.permits.toInt + 1 := by
    rw [hrest, toInt_add_one semaphore.permits (by omega)]
  rw [wait_of_nonpos hlow howed.le] at hwait
  cases hwait
  refine ⟨_, wait_of_nonpos (by omega) hfree, ?_⟩
  rw [cancel_of_mem (List.mem_append_left _ hmem), List.erase_append_left _ hmem, hrest, hwaiters,
    Int64.sub_add_cancel, Int64.add_sub_cancel]

/-- Unless the task that leaves is the first in line, another one is woken in any case. -/
theorem cancel_signal (hcancel : semaphore.cancel task = some rest)
    (hwoken : semaphore.signal.1 ≠ some task) :
    rest.signal.1 = semaphore.signal.1 ∧ semaphore.signal.2.cancel task = some rest.signal.2 := by
  obtain ⟨hmem, hwaiters⟩ := waiters_cancel hcancel
  have hrest := permits_cancel hcancel
  cases hline : semaphore.waiters with
  | nil => simp [hline] at hmem
  | cons first others =>
      have hne : first ≠ task := by
        rintro rfl
        exact hwoken (by rw [signal, hline]; rfl)
      rw [hline, List.erase_cons_tail (by simpa using hne)] at hwaiters
      have hlater : task ∈ semaphore.signal.2.waiters := by
        rw [hline, List.mem_cons] at hmem
        simpa [signal, hline] using hmem.resolve_left hne.symm
      rw [cancel_of_mem hlater]
      simp [signal, hline, hwaiters, hrest]

theorem cancel_cancel (hne : other ≠ task) (hcancel : semaphore.cancel task = some rest)
    (hother : semaphore.cancel other = some next) :
    ∃ late, rest.cancel other = some late ∧ next.cancel task = some late := by
  obtain ⟨hmem, hrest⟩ := waiters_cancel hcancel
  obtain ⟨hotherMem, hnext⟩ := waiters_cancel hother
  have hleft : other ∈ rest.waiters := by
    rw [hrest]
    exact (List.mem_erase_of_ne hne).mpr hotherMem
  have hstays : task ∈ next.waiters := by
    rw [hnext]
    exact (List.mem_erase_of_ne hne.symm).mpr hmem
  refine ⟨_, cancel_of_mem hleft, ?_⟩
  rw [cancel_of_mem hstays, hnext, hrest, List.erase_comm, permits_cancel hcancel,
    permits_cancel hother]

theorem cancel_eq_none_iff : semaphore.cancel task = none ↔ task ∉ semaphore.waiters := by
  simp [cancel]

theorem cancel_eq_none_of_cancel (hcancel : semaphore.cancel task = some rest)
    (hother : semaphore.cancel other = none) : rest.cancel other = none := by
  refine if_neg fun hmem => ?_
  rw [(waiters_cancel hcancel).2] at hmem
  rw [cancel_of_mem (List.mem_of_mem_erase hmem)] at hother
  cases hother

end Semaphore

namespace Channel

variable {τ : Type} {channel next early : Channel τ} {task other : τ} {value : Int64}
  {woken : Option τ} [DecidableEq τ]

/-! Operations of others after a send has been taken back. -/

theorem cancelSend_send {parked : τ → Prop} (hserves : channel.emptySlots.Serves parked)
    (hlow : -2 ^ 63 < channel.emptySlots.permits.toInt)
    (hcancel : channel.cancelSend task = some early) {status : SendStatus}
    (hsend : channel.send value other = (status, woken, next)) :
    ∃ late, early.send value other = (status, woken, late) ∧ next.cancelSend task = some late := by
  obtain ⟨slots, hslots, rfl⟩ := Option.map_eq_some_iff.mp hcancel
  rcases hwait : channel.emptySlots.wait other with ⟨answer, waited⟩
  -- the two operations on the line of senders commute
  obtain ⟨late, hlate, hlater⟩ := Semaphore.cancel_wait hserves hlow hslots hwait
  cases answer with
  | granted =>
      simp only [send, hwait] at hsend
      cases hsend
      refine ⟨_, by simp only [send, hlate]; rfl, ?_⟩
      exact Option.map_eq_some_iff.mpr ⟨late, hlater, rfl⟩
  | suspended =>
      simp only [send, hwait] at hsend
      cases hsend
      refine ⟨_, by simp only [send, hlate]; rfl, ?_⟩
      exact Option.map_eq_some_iff.mpr ⟨late, hlater, rfl⟩

theorem cancelSend_receive (hcancel : channel.cancelSend task = some early)
    {status : ReceiveStatus} (hreceive : channel.receive other = .ok (status, woken, next))
    (hwoken : woken ≠ some task) :
    ∃ late, early.receive other = .ok (status, woken, late) ∧ next.cancelSend task = some late := by
  obtain ⟨slots, hslots, rfl⟩ := Option.map_eq_some_iff.mp hcancel
  rcases hwait : channel.filledSlots.wait other with ⟨answer, waited⟩
  simp only [receive, hwait] at hreceive
  cases answer with
  | granted =>
      obtain ⟨⟨taken, rest⟩, htake, hpair⟩ := bind_eq_ok.mp hreceive
      cases hpair
      obtain ⟨buffer, hbuffer, rfl⟩ := take_eq_ok_iff.mp htake
      -- the receiver wakes the first sender in line, which is not the one that leaves
      obtain ⟨hsame, hlater⟩ := Semaphore.cancel_signal hslots hwoken
      refine ⟨_, ?_, Option.map_eq_some_iff.mpr ⟨_, hlater, rfl⟩⟩
      simp only [receive, hwait, hsame]
      exact bind_eq_ok.mpr ⟨_, take_eq_ok_iff.mpr ⟨buffer, hbuffer, rfl⟩, rfl⟩
  | suspended =>
      cases hreceive
      obtain ⟨hsame, hlater⟩ := Semaphore.cancel_signal hslots hwoken
      refine ⟨_, ?_, Option.map_eq_some_iff.mpr ⟨_, hlater, rfl⟩⟩
      simp only [receive, hwait, hsame]

theorem cancelSend_take (hcancel : channel.cancelSend task = some early)
    (htake : channel.take = .ok (value, next)) :
    ∃ late, early.take = .ok (value, late) ∧ next.cancelSend task = some late := by
  obtain ⟨slots, hslots, rfl⟩ := Option.map_eq_some_iff.mp hcancel
  obtain ⟨buffer, hbuffer, rfl⟩ := take_eq_ok_iff.mp htake
  exact ⟨_, take_eq_ok_iff.mpr ⟨buffer, hbuffer, rfl⟩,
    Option.map_eq_some_iff.mpr ⟨slots, hslots, rfl⟩⟩

theorem cancelReceive_of_nonpos (hfull : channel.emptySlots.permits.toInt ≤ 0) :
    channel.cancelReceive task = none :=
  if_pos (by rwa [Int64.le_iff_toInt_le, Int64.toInt_zero])

theorem cancelReceive_of_cancel (hout : channel.filledSlots.cancel task = none) :
    channel.cancelReceive task = none := by
  unfold cancelReceive
  split
  · rfl
  · rw [hout, Option.map_none]

theorem cancelReceive_eq_some_iff : channel.cancelReceive task = some next ↔
    0 < channel.emptySlots.permits.toInt ∧ ∃ filledSlots,
      channel.filledSlots.cancel task = some filledSlots ∧
        next = { channel with emptySlots := channel.emptySlots.retract, filledSlots } := by
  by_cases hfull : channel.emptySlots.permits.toInt ≤ 0
  · rw [cancelReceive_of_nonpos hfull]
    simp [not_lt.mpr hfull]
  · have hfree : ¬ channel.emptySlots.permits ≤ 0 := by
      rwa [Int64.le_iff_toInt_le, Int64.toInt_zero]
    simp [cancelReceive, hfree, not_le.mp hfull, eq_comm]

end Channel

namespace Exchange

variable {τ : Type}

/-! ## What takes an operation back -/

namespace Action

/-- Whether the action starts an operation of the task. -/
@[simp] def Starts (task : τ) : Action τ → Prop
  | .send other _ | .receive other => other = task
  | _ => False

/-- Whether a receive is called. -/
@[simp] def isReceive : Action τ → Bool
  | .receive _ => true
  | _ => false

/-- The action takes back what a task in the given phase waits with. -/
@[simp] def Revokes : Action τ → Phase → Prop
  | .cancelSend _, .parkedSend _ => True
  | .cancelReceive _, .parkedReceive => True
  | _, _ => False

/-- An action that starts nothing ends what its task is in the middle of, unless it is refused. -/
theorem phaseAfter_cases {action : Action τ} (hstarts : ¬ action.Starts action.task)
    (reply : Reply) (phase : Phase) :
    action.phaseAfter reply phase = .idle ∨
      reply = .refused ∧ action.phaseAfter reply phase = phase := by
  cases action <;> cases reply <;> simp_all

theorem phase_of_phaseAfter {action : Action τ} (hreceive : action.isReceive = false)
    {reply : Reply} {phase : Phase} (hphase : action.phaseAfter reply phase = .parkedReceive) :
    phase = .parkedReceive := by
  cases action <;> cases reply <;> simp_all

theorem not_revokes_idle (action : Action τ) : ¬ action.Revokes .idle := by
  cases action <;> exact id

theorem not_revokes_wake (action : Action τ) (phase : Phase) : ¬ action.Revokes phase.wake := by
  cases action <;> cases phase <;> exact id

end Action

/-- A task that waits can only take back what it waits with. -/
theorem eq_of_revokes {exchange : Exchange τ} {action closing : Action τ}
    (hallowed : exchange.Allows action) (htask : action.task = closing.task)
    (hrevokes : closing.Revokes (exchange.phase closing.task)) : action = closing := by
  cases closing with
  | cancelSend other =>
      cases hphase : exchange.phase other <;> simp [hphase] at hrevokes
      cases action <;> simp_all [Allows]
  | cancelReceive other =>
      cases hphase : exchange.phase other <;> simp [hphase] at hrevokes
      cases action <;> simp_all [Allows]
  | _ => exact hrevokes.elim

section Serve

variable [DecidableEq τ] {exchange : Exchange τ} {action closing : Action τ} {reply : Reply}
  {woken : Option τ} {task : τ} {channel next early late : Channel τ}

/-- Nobody comes to wait by being woken. -/
theorem phase_of_wakeIn {phase : τ → Phase} (hphase : wakeIn phase woken task = .parkedReceive) :
    phase task = .parkedReceive := by
  by_cases hwoken : woken = some task
  · subst hwoken
    rw [wakeIn_some, Function.update_self] at hphase
    have hnot := Phase.isParkedReceive_wake (phase task)
    rw [hphase] at hnot
    cases hnot
  · rwa [wakeIn_of_ne hwoken] at hphase

/-- After a send has been taken back, an action of another task gets the answer that it would
have got before. -/
theorem serve_of_cancelSend {parked : τ → Prop} (hserves : channel.emptySlots.Serves parked)
    (hlow : -2 ^ 63 < channel.emptySlots.permits.toInt)
    (hcancel : channel.cancelSend task = some early)
    (hserve : serve channel action = .ok (reply, woken, next)) (hne : action.task ≠ task)
    (hwoken : woken ≠ some task) :
    ∃ late, serve early action = .ok (reply, woken, late) ∧ next.cancelSend task = some late := by
  have hslots := Option.map_eq_some_iff.mp hcancel
  cases action with
  | send other value =>
      obtain ⟨⟨status, woken, sent⟩, hsend⟩ : ∃ outcome, channel.send value other = outcome :=
        ⟨_, rfl⟩
      simp only [serve, hsend] at hserve
      cases hserve
      obtain ⟨late, hlate, hlater⟩ := Channel.cancelSend_send hserves hlow hcancel hsend
      exact ⟨late, by simp only [serve, hlate], hlater⟩
  | finishSend other value =>
      cases hserve
      obtain ⟨slots, hslots, rfl⟩ := hslots
      exact ⟨_, rfl, Option.map_eq_some_iff.mpr ⟨slots, hslots, rfl⟩⟩
  | receive other =>
      obtain ⟨⟨status, woken, received⟩, hreceive, hpair⟩ := bind_eq_ok.mp hserve
      cases hpair
      obtain ⟨late, hlate, hlater⟩ := Channel.cancelSend_receive hcancel hreceive hwoken
      exact ⟨late, bind_eq_ok.mpr ⟨_, hlate, rfl⟩, hlater⟩
  | finishReceive other =>
      obtain ⟨⟨value, taken⟩, htake, hpair⟩ := bind_eq_ok.mp hserve
      cases hpair
      obtain ⟨late, hlate, hlater⟩ := Channel.cancelSend_take hcancel htake
      exact ⟨late, bind_eq_ok.mpr ⟨_, hlate, rfl⟩, hlater⟩
  | cancelSend other =>
      obtain ⟨slots, hslots, rfl⟩ := hslots
      cases hother : channel.emptySlots.cancel other with
      | none =>
          have hsame := Semaphore.cancel_eq_none_of_cancel hslots hother
          simp only [serve, Channel.cancelSend, hother, Option.map_none] at hserve
          cases hserve
          exact ⟨_, by simp only [serve, Channel.cancelSend, hsame, Option.map_none], hcancel⟩
      | some rest =>
          obtain ⟨late, hlate, hlater⟩ := Semaphore.cancel_cancel hne hslots hother
          simp only [serve, Channel.cancelSend, hother, Option.map_some] at hserve
          cases hserve
          refine ⟨{ channel with emptySlots := late }, ?_, ?_⟩
          · exact serve_cancelSend_eq_withdrawn_iff.mpr
              ⟨Option.map_eq_some_iff.mpr ⟨late, hlate, rfl⟩, rfl⟩
          · exact Option.map_eq_some_iff.mpr ⟨late, hlater, rfl⟩
  | cancelReceive other =>
      obtain ⟨slots, hslots, rfl⟩ := hslots
      -- with or without the send, no slot is free that could be retracted
      have hfull := hserves.permits_cancel_nonpos hslots
      have howed := hserves.permits_neg (Semaphore.waiters_cancel hslots).1
      have hbefore : channel.cancelReceive other = none := Channel.cancelReceive_of_nonpos howed.le
      simp only [serve, hbefore] at hserve
      cases hserve
      refine ⟨_, ?_, hcancel⟩
      have hafter : ({ channel with emptySlots := slots } : Channel τ).cancelReceive other = none :=
        Channel.cancelReceive_of_nonpos hfull
      simp only [serve, hafter]

/-- What the withdrawal of an operation asks of the other tasks: a receive is the only one
that waits. -/
def Alone (exchange : Exchange τ) : Action τ → Prop
  | .cancelReceive task => ∀ other, exchange.phase other = .parkedReceive → other = task
  | _ => True

/-- What may happen until an operation is taken back. -/
def Action.Tolerates (closing action : Action τ) : Prop :=
  ¬ action.Starts closing.task ∧
    match closing with
    | .cancelReceive _ => action.isReceive = false
    | _ => True

/-- Nobody joins the receives that wait unless it starts one. -/
theorem Alone.after (halone : exchange.Alone closing) (htolerates : closing.Tolerates action) :
    (exchange.after action reply woken channel).Alone closing := by
  cases closing with
  | cancelReceive task =>
      intro other hphase
      refine halone other ?_
      by_cases hself : other = action.task
      · subst hself
        rw [after_phase_self] at hphase
        exact Action.phase_of_phaseAfter htolerates.2 hphase
      · rw [after_phase_of_ne hself] at hphase
        exact phase_of_wakeIn hphase
  | _ => exact trivial

end Serve

/-! ## Moving a withdrawal forward -/

section Forward

variable [DecidableEq τ] [Fintype τ] {users : Finset τ} {exchange : Exchange τ}
  {action closing : Action τ} {reply : Reply} {woken : Option τ} {task : τ}
  {channel early late : Channel τ}

/-- Only an operation that waits is ever taken back. -/
theorem Sound.revokes_of_withdrawn (hsound : exchange.Sound users)
    (hserve : serve exchange.channel closing = .ok (.withdrawn, woken, channel)) :
    closing.Revokes (exchange.phase closing.task) := by
  obtain ⟨task, rfl | rfl⟩ := cancels_of_serve hserve (Or.inl rfl)
  · obtain ⟨hcancel, -⟩ := serve_cancelSend_eq_withdrawn_iff.mp hserve
    obtain ⟨slots, hslots, -⟩ := Option.map_eq_some_iff.mp hcancel
    obtain ⟨value, hphase⟩ := hsound.lines.cancelled_sender hslots
    simp [hphase]
  · obtain ⟨hcancel, -⟩ := serve_cancelReceive_eq_withdrawn_iff.mp hserve
    obtain ⟨-, slots, hslots, -⟩ := Channel.cancelReceive_eq_some_iff.mp hcancel
    simp [hsound.lines.cancelled_receiver hslots]

/-- If an operation is taken back after an action, then the action was not its task's own, did
not wake the task, and found it waiting. -/
theorem Sound.before_withdrawn (hsound : exchange.Sound Finset.univ)
    (hallowed : exchange.Allows action) (hstarts : ¬ action.Starts closing.task)
    (hserve : serve exchange.channel action = .ok (reply, woken, channel)) {woken' : Option τ}
    (hlate : serve channel closing = .ok (.withdrawn, woken', late)) :
    action.task ≠ closing.task ∧ woken ≠ some closing.task ∧
      closing.Revokes (exchange.phase closing.task) := by
  -- after the action, the task waits with the operation that is taken back
  have hrevokes : closing.Revokes ((exchange.after action reply woken channel).phase closing.task) :=
    (hsound.after hallowed hserve).revokes_of_withdrawn hlate
  have hne : action.task ≠ closing.task := by
    intro heq
    rw [← heq, after_phase_self, heq] at hrevokes
    -- an action of the task itself ends its operation, or is a withdrawal that was refused
    rcases action.phaseAfter_cases (heq ▸ hstarts) reply (exchange.phase closing.task) with
      hidle | ⟨rfl, hsame⟩
    · rw [hidle] at hrevokes
      exact closing.not_revokes_idle hrevokes
    · rw [hsame] at hrevokes
      obtain rfl := eq_of_revokes hallowed heq hrevokes
      rw [channel_of_refused hserve, hserve] at hlate
      cases hlate
  rw [after_phase_of_ne hne.symm] at hrevokes
  -- a task that is woken does not wait any more
  have hwoken : woken ≠ some closing.task := by
    rintro rfl
    rw [wakeIn_some, Function.update_self] at hrevokes
    exact closing.not_revokes_wake _ hrevokes
  rw [wakeIn_of_ne hwoken] at hrevokes
  exact ⟨hne, hwoken, hrevokes⟩

omit [DecidableEq τ] in
/-- The only receiver that waits is the next one to be woken. -/
theorem Sound.signal_eq_of_alone (hsound : exchange.Sound users)
    (hwaits : exchange.phase task = .parkedReceive)
    (halone : ∀ other, exchange.phase other = .parkedReceive → other = task) :
    exchange.channel.filledSlots.signal.1 = some task := by
  cases hline : exchange.channel.filledSlots.waiters with
  | nil =>
      have hmem := (hsound.lines.receivers.mem_iff task).mpr (by simp [hwaits])
      rw [hline] at hmem
      cases hmem
  | cons first rest =>
      have hmem : first ∈ exchange.channel.filledSlots.waiters := hline ▸ List.mem_cons_self
      rw [hsound.lines.receivers.mem_iff, Phase.isParkedReceive_iff] at hmem
      rw [Semaphore.signal, hline, List.head?_cons, halone first hmem]

/-- While a receive is the only one that waits and could be taken back, others can only end
the receives that they have been woken from; whatever else they did would wake it or take
the slot that it has announced. -/
theorem Sound.serve_of_cancelReceive (hsound : exchange.Sound users)
    (hwaits : exchange.phase task = .parkedReceive)
    (halone : ∀ other, exchange.phase other = .parkedReceive → other = task)
    (hreceive : action.isReceive = false)
    (hserve : serve exchange.channel action = .ok (reply, woken, channel))
    (hne : action.task ≠ task) (hwoken : woken ≠ some task)
    (hlate : channel.cancelReceive task = some late) :
    ∃ early, exchange.channel.cancelReceive task = some early ∧
      serve early action = .ok (reply, woken, late) := by
  obtain ⟨hfree, slots, hslots, rfl⟩ := Channel.cancelReceive_eq_some_iff.mp hlate
  -- a value that is delivered is for the one who waits
  have hfirst := hsound.signal_eq_of_alone hwaits halone
  cases action with
  | send other value =>
      by_cases hslot : 0 < exchange.channel.emptySlots.permits.toInt
      · simp only [serve, Channel.send, Semaphore.wait_of_pos hslot] at hserve
        cases hserve
        exact absurd hfirst hwoken
      · simp only [serve, Channel.send,
          Semaphore.wait_of_nonpos hsound.slots_gt (not_lt.mp hslot)] at hserve
        cases hserve
        have hleft := toInt_sub_one exchange.channel.emptySlots.permits hsound.slots_gt
        dsimp only at hfree
        omega
  | finishSend other value =>
      cases hserve
      exact absurd hfirst hwoken
  | receive other => simp at hreceive
  | finishReceive other =>
      obtain ⟨⟨value, taken⟩, htake, hpair⟩ := bind_eq_ok.mp hserve
      cases hpair
      obtain ⟨buffer, hbuffer, rfl⟩ := Channel.take_eq_ok_iff.mp htake
      refine ⟨_, Channel.cancelReceive_eq_some_iff.mpr ⟨hfree, slots, hslots, rfl⟩, ?_⟩
      exact bind_eq_ok.mpr ⟨_, Channel.take_eq_ok_iff.mpr ⟨buffer, hbuffer, rfl⟩, rfl⟩
  | cancelSend other =>
      cases hcancel : exchange.channel.emptySlots.cancel other with
      | none =>
          have hnone : exchange.channel.emptySlots.retract.cancel other = none := by
            rw [Semaphore.cancel_eq_none_iff] at hcancel ⊢
            exact hcancel
          simp only [serve, Channel.cancelSend, hcancel, Option.map_none] at hserve
          cases hserve
          refine ⟨_, hlate, ?_⟩
          simp only [serve, Channel.cancelSend, hnone, Option.map_none]
      | some rest =>
          have hfull := hsound.lines.senders.permits_cancel_nonpos hcancel
          simp only [serve, Channel.cancelSend, hcancel, Option.map_some] at hserve
          cases hserve
          exact absurd hfree (not_lt.mpr hfull)
  | cancelReceive other =>
      have hout : exchange.channel.filledSlots.cancel other = none := by
        rw [hsound.lines.receivers.cancel_eq_none_iff, Phase.isParkedReceive_iff]
        exact fun hparked => hne (halone other hparked)
      simp only [serve, Channel.cancelReceive_of_cancel hout] at hserve
      cases hserve
      have hnone : ({ exchange.channel with
          emptySlots := exchange.channel.emptySlots.retract
          filledSlots := slots } : Channel τ).cancelReceive other = none :=
        Channel.cancelReceive_of_cancel (Semaphore.cancel_eq_none_of_cancel hslots hout)
      exact ⟨_, hlate, by simp only [serve, hnone]⟩

/-- If an operation can be taken back after an action, then it can be taken back before it, and
the action gets the same answer. -/
theorem Sound.withdraw_before (hsound : exchange.Sound Finset.univ)
    (halone : exchange.Alone closing) (htolerates : closing.Tolerates action)
    (hallowed : exchange.Allows action)
    (hserve : serve exchange.channel action = .ok (reply, woken, channel))
    (hlate : serve channel closing = .ok (.withdrawn, none, late)) :
    ∃ early, serve exchange.channel closing = .ok (.withdrawn, none, early) ∧
      serve early action = .ok (reply, woken, late) := by
  obtain ⟨hne, hwoken, hrevokes⟩ :=
    hsound.before_withdrawn hallowed htolerates.1 hserve hlate
  cases closing with
  | cancelSend task =>
      obtain ⟨hcancel, -⟩ := serve_cancelSend_eq_withdrawn_iff.mp hlate
      -- what still waits after the action has waited before it
      have hwaits : task ∈ exchange.channel.emptySlots.waiters := by
        rw [hsound.lines.senders.mem_iff]
        cases hphase : exchange.phase task <;> simp_all
      obtain ⟨early, hearly⟩ : ∃ early, exchange.channel.cancelSend task = some early :=
        ⟨_, Option.map_eq_some_iff.mpr ⟨_, Semaphore.cancel_of_mem hwaits, rfl⟩⟩
      obtain ⟨last, hlast, hsame⟩ := serve_of_cancelSend hsound.lines.senders hsound.slots_gt
        hearly hserve hne hwoken
      rw [hcancel] at hsame
      cases hsame
      exact ⟨early, serve_cancelSend_eq_withdrawn_iff.mpr ⟨hearly, rfl⟩, hlast⟩
  | cancelReceive task =>
      obtain ⟨hcancel, -⟩ := serve_cancelReceive_eq_withdrawn_iff.mp hlate
      -- likewise for a receive, which has to be the only one
      have hwaits : exchange.phase task = .parkedReceive := by
        cases hphase : exchange.phase task <;> simp_all
      obtain ⟨early, hearly, hlast⟩ := hsound.serve_of_cancelReceive hwaits halone htolerates.2
        hserve hne hwoken hcancel
      exact ⟨early, serve_cancelReceive_eq_withdrawn_iff.mpr ⟨hearly, rfl⟩, hlast⟩
  | _ => exact hrevokes.elim

end Forward

/-! ## Erasing an operation -/

section Erase

variable [DecidableEq τ] {exchange : Exchange τ} {action first second : Action τ}
  {reply firstReply : Reply} {woken : Option τ} {task : τ} {value : Int64}
  {channel early late : Channel τ}

theorem wakeIn_congr {phase other : τ → Phase} (hsame : phase task = other task) :
    wakeIn phase woken task = wakeIn other woken task := by
  cases woken with
  | none => exact hsame
  | some woken =>
      by_cases htask : task = woken
      · subst htask
        simp only [wakeIn_some, Function.update_self, hsame]
      · simp only [wakeIn_some, Function.update_of_ne htask, hsame]

/-- It does not matter for the tasks which of two actions comes first, if one of them wakes
nobody and is not noticed by the other. -/
theorem after_after_comm (hne : second.task ≠ first.task) (hwoken : woken ≠ some first.task) :
    (exchange.after first firstReply none early).after second reply woken late =
      (exchange.after second reply woken channel).after first firstReply none late := by
  have hphase : ((exchange.after first firstReply none early).after second reply woken late).phase =
      ((exchange.after second reply woken channel).after first firstReply none late).phase := by
    funext other
    by_cases hfirst : other = first.task
    · subst hfirst
      rw [after_phase_of_ne hne.symm, wakeIn_of_ne hwoken, after_phase_self, after_phase_self,
        after_phase_of_ne hne.symm, wakeIn_of_ne hwoken]
    · rw [after_phase_of_ne hfirst, wakeIn_none]
      by_cases hsecond : other = second.task
      · subst hsecond
        rw [after_phase_self, after_phase_self, after_phase_of_ne hne, wakeIn_none]
      · rw [after_phase_of_ne hsecond, after_phase_of_ne hsecond]
        exact wakeIn_congr (after_phase_of_ne hfirst)
  exact congrArg (Exchange.mk late) hphase

/-- An operation that is taken back at once leaves its task as it was. -/
theorem after_after_withdrawn (hidle : exchange.phase action.task = .idle)
    (htask : second.task = action.task) (hrevokes : ∀ phase, second.phaseAfter .withdrawn phase = .idle) :
    (exchange.after action reply none channel).after second .withdrawn none early =
      { exchange with channel := early } := by
  have hphase : ((exchange.after action reply none channel).after second .withdrawn none early).phase =
      exchange.phase := by
    funext other
    by_cases hother : other = action.task
    · subst hother
      rw [← htask, after_phase_self, hrevokes, htask, hidle]
    · rw [after_phase_of_ne (htask ▸ hother), wakeIn_none, after_phase_of_ne hother, wakeIn_none]
  exact congrArg (Exchange.mk early) hphase

variable [Fintype τ] {start last : Exchange τ} {before between later : List (Record τ)}
  {opening closing : Record τ} {capacity : ℕ}

/-- An operation that is taken back after other actions could have been taken back before
them. -/
theorem Course.withdraw_first {closing : Action τ} (hsound : exchange.Sound Finset.univ)
    (halone : exchange.Alone closing) (hbetween : ∀ record ∈ between, closing.Tolerates record.action)
    (hcourse : Course exchange (between ++ ⟨closing, .withdrawn, none⟩ :: later) last) :
    ∃ early, serve exchange.channel closing = .ok (.withdrawn, none, early) ∧
      Course (exchange.after closing .withdrawn none early) (between ++ later) last := by
  -- the withdrawal moves to the front, past one action at a time
  induction between generalizing exchange with
  | nil =>
      cases hcourse with
      | cons hallowed hserve hrest => exact ⟨_, hserve, hrest⟩
  | cons record between ih =>
      cases hcourse with
      | @cons _ _ action reply woken channel _ hallowed hserve hrest =>
          have htolerates := hbetween _ List.mem_cons_self
          obtain ⟨late, hlate, hlast⟩ := ih (hsound.after hallowed hserve)
            (halone.after htolerates)
            (fun record hmem => hbetween record (List.mem_cons_of_mem _ hmem)) hrest
          obtain ⟨early, hearly, hsame⟩ :=
            hsound.withdraw_before halone htolerates hallowed hserve hlate
          obtain ⟨hne, hwoken, -⟩ :=
            hsound.before_withdrawn hallowed htolerates.1 hserve hlate
          refine ⟨early, hearly, .cons (hallowed.congr ?_) hsame ?_⟩
          · -- the action is still allowed, since it is not about the task that has withdrawn
            rw [after_phase_of_ne hne, wakeIn_none]
          · rwa [after_after_comm hne hwoken]

/-- An operation that a task starts and has to wait with, what happens meanwhile, and how the
operation is taken back.  While a receive waits, no other one does and none is started. -/
inductive Withdrawn (start : Exchange τ) : Record τ → List (Record τ) → Record τ → Prop where
  | send {task : τ} {value : Int64} {woken : Option τ} {between : List (Record τ)}
      (hbetween : ∀ record ∈ between, ¬ record.action.Starts task) :
      Withdrawn start ⟨.send task value, .blocked, woken⟩ between ⟨.cancelSend task, .withdrawn, none⟩
  | receive {task : τ} {woken : Option τ} {between : List (Record τ)}
      (halone : ∀ other, start.phase other ≠ .parkedReceive)
      (hbetween : ∀ record ∈ between, ¬ record.action.Starts task ∧ record.action.isReceive = false) :
      Withdrawn start ⟨.receive task, .blocked, woken⟩ between ⟨.cancelReceive task, .withdrawn, none⟩

/-- A send that has to wait and is taken back at once leaves only its offer. -/
theorem Sound.withdraw_send_at_once (hsound : exchange.Sound Finset.univ)
    (hidle : exchange.phase task = .idle)
    (hserve : serve exchange.channel (.send task value) = .ok (.blocked, woken, channel))
    (hcancel : channel.cancelSend task = some early) :
    woken = none ∧ early = { exchange.channel with lastSent := some value } := by
  have hout : task ∉ exchange.channel.emptySlots.waiters := by
    rw [hsound.lines.senders.mem_iff, hidle]
    simp
  by_cases hslot : 0 < exchange.channel.emptySlots.permits.toInt
  · simp only [serve, Channel.send, Semaphore.wait_of_pos hslot] at hserve
    cases hserve
  · simp only [serve, Channel.send,
      Semaphore.wait_of_nonpos hsound.slots_gt (not_lt.mp hslot)] at hserve
    cases hserve
    simp only [Channel.cancelSend, Semaphore.cancel_lineUp hout, Option.map_some] at hcancel
    cases hcancel
    exact ⟨rfl, rfl⟩

/-- A receive that has to wait and is taken back at once has woken nobody, and leaves nothing. -/
theorem Sound.withdraw_receive_at_once (hsound : exchange.Sound Finset.univ)
    (hidle : exchange.phase task = .idle)
    (hserve : serve exchange.channel (.receive task) = .ok (.blocked, woken, channel))
    (hcancel : channel.cancelReceive task = some early) :
    woken = none ∧ early = exchange.channel := by
  have hout : task ∉ exchange.channel.filledSlots.waiters := by
    rw [hsound.lines.receivers.mem_iff, hidle]
    simp
  obtain ⟨hfree, slots, hslots, rfl⟩ := Channel.cancelReceive_eq_some_iff.mp hcancel
  by_cases hvalue : 0 < exchange.channel.filledSlots.permits.toInt
  · obtain ⟨⟨status, woken, received⟩, hreceive, hpair⟩ := bind_eq_ok.mp hserve
    simp only [Channel.receive, Semaphore.wait_of_pos hvalue] at hreceive
    obtain ⟨⟨taken, rest⟩, -, hreceived⟩ := bind_eq_ok.mp hreceive
    cases hreceived
    cases hpair
  · simp only [serve, Channel.receive,
      Semaphore.wait_of_nonpos hsound.values_gt (not_lt.mp hvalue), ok_bind] at hserve
    cases hserve
    -- the slot would not be free if a sender had been woken for it
    have hline : exchange.channel.emptySlots.waiters = [] := by
      cases hwoken : exchange.channel.emptySlots.signal.1 with
      | none => simpa [Semaphore.signal] using hwoken
      | some other =>
          have hnone := hsound.lines.senders.permits_signal_nonpos hwoken
          exact absurd hfree (not_lt.mpr hnone)
    have hempty : exchange.channel.emptySlots.signal.2.retract = exchange.channel.emptySlots := by
      simp only [Semaphore.retract, Semaphore.signal, Int64.add_sub_cancel, hline, List.tail_nil]
      rw [← hline]
    rw [Semaphore.cancel_lineUp hout] at hslots
    cases hslots
    exact ⟨by simp [Semaphore.signal, hline], by rw [hempty]⟩

/-- A send that is taken back can be left out. -/
theorem Course.erase_send (hsound : start.Sound Finset.univ)
    (hbetween : ∀ record ∈ between, ¬ record.action.Starts task)
    (hcourse : Course start (⟨.send task value, .blocked, woken⟩ ::
      (between ++ ⟨.cancelSend task, .withdrawn, none⟩ :: later)) last) :
    woken = none ∧ ∃ offered, Course start (between ++ later) (last.offering offered) := by
  cases hcourse with
  | @cons _ _ _ _ _ channel _ hallowed hserve hrest =>
      have htolerates : ∀ record ∈ between, (Action.cancelSend task).Tolerates record.action :=
        fun record hmem => ⟨hbetween record hmem, trivial⟩
      have halone : (start.after (.send task value) .blocked woken channel).Alone
          (.cancelSend task) := trivial
      -- the withdrawal comes right after the send, and undoes it but for the value offered last
      obtain ⟨early, hearly, herased⟩ := Course.withdraw_first (hsound.after hallowed hserve)
        halone htolerates hrest
      obtain ⟨hcancel, -⟩ := serve_cancelSend_eq_withdrawn_iff.mp hearly
      obtain ⟨rfl, rfl⟩ := hsound.withdraw_send_at_once hallowed hserve hcancel
      have hsame : (start.after (.send task value) .blocked none channel).after
          (.cancelSend task) .withdrawn none { start.channel with lastSent := some value } =
            start.offering (some value) :=
        after_after_withdrawn hallowed rfl fun _ => rfl
      rw [hsame] at herased
      obtain ⟨offered, hlast⟩ := herased.offering start.channel.lastSent
      exact ⟨rfl, offered, hlast⟩

/-- A receive that is taken back can be left out if no other one waits with it. -/
theorem Course.erase_receive (hsound : start.Sound Finset.univ)
    (hparked : ∀ other, start.phase other ≠ .parkedReceive)
    (hbetween : ∀ record ∈ between, ¬ record.action.Starts task ∧ record.action.isReceive = false)
    (hcourse : Course start (⟨.receive task, .blocked, woken⟩ ::
      (between ++ ⟨.cancelReceive task, .withdrawn, none⟩ :: later)) last) :
    woken = none ∧ Course start (between ++ later) last := by
  cases hcourse with
  | @cons _ _ _ _ _ channel _ hallowed hserve hrest =>
      -- no other receiver waits: one that was parked later would have been parked at the start
      have halone : (start.after (.receive task) .blocked woken channel).Alone
          (.cancelReceive task) := by
        intro other hphase
        by_contra hother
        rw [after_phase_of_ne hother] at hphase
        exact hparked other (phase_of_wakeIn hphase)
      obtain ⟨early, hearly, herased⟩ := Course.withdraw_first (hsound.after hallowed hserve)
        halone hbetween hrest
      obtain ⟨hcancel, -⟩ := serve_cancelReceive_eq_withdrawn_iff.mp hearly
      obtain ⟨rfl, rfl⟩ := hsound.withdraw_receive_at_once hallowed hserve hcancel
      have hsame : (start.after (.receive task) .blocked none channel).after
          (.cancelReceive task) .withdrawn none start.channel = start :=
        after_after_withdrawn hallowed rfl fun _ => rfl
      rw [hsame] at herased
      exact ⟨rfl, herased⟩

/-- Withdrawals go unnoticed: without an operation that is taken back, all others get the same
answers and wake the same tasks, and the channel and its tasks end up as they are, but for
the value that was offered last.  A receive that has woken a sender is not taken back. -/
theorem Course.erase_withdrawn (hroom : capacity + Fintype.card τ ≤ 2 ^ 63 - 1)
    (hbefore : Course (ofCapacity capacity) before start)
    (hcourse : Course start (opening :: (between ++ closing :: later)) last)
    (hwithdrawn : Withdrawn start opening between closing) :
    opening.woken = none ∧
      ∃ offered, Course (ofCapacity capacity) (before ++ (between ++ later)) (last.offering offered) := by
  have hsound : start.Sound Finset.univ :=
    (run_iff_course.mpr ⟨before, hbefore, rfl⟩).sound hroom
  cases hwithdrawn with
  | send hbetween =>
      obtain ⟨hnone, offered, herased⟩ := Course.erase_send hsound hbetween hcourse
      exact ⟨hnone, offered, hbefore.append herased⟩
  | receive hparked hbetween =>
      obtain ⟨hnone, herased⟩ := Course.erase_receive hsound hparked hbetween hcourse
      exact ⟨hnone, last.channel.lastSent, hbefore.append herased⟩

/-- The second of two senders gives up after the first one has been woken, and the first value
gets through as if it had been the only one.  The second of two receivers gives up after the
first one has been served, and the next value is for whoever asks. -/
theorem Course.erase_giving_up :
    (∃ start last : Exchange (Fin 3), ∃ offered,
      0 + Fintype.card (Fin 3) ≤ 2 ^ 63 - 1 ∧
      Course (ofCapacity 0) [⟨.send 0 5, .blocked, none⟩] start ∧
      Course start
        [⟨.send 1 6, .blocked, none⟩, ⟨.receive 2, .blocked, some 0⟩,
          ⟨.cancelSend 1, .withdrawn, none⟩, ⟨.finishSend 0 5, .delivered, some 2⟩,
          ⟨.finishReceive 2, .received 5, none⟩] last ∧
      Course (ofCapacity 0)
        [⟨.send 0 5, .blocked, none⟩, ⟨.receive 2, .blocked, some 0⟩,
          ⟨.finishSend 0 5, .delivered, some 2⟩, ⟨.finishReceive 2, .received 5, none⟩]
        (last.offering offered)) ∧
    ∃ start last : Exchange (Fin 3), ∃ offered,
      1 + Fintype.card (Fin 3) ≤ 2 ^ 63 - 1 ∧
      Course (ofCapacity 1) [⟨.receive 1, .blocked, none⟩, ⟨.send 2 7, .delivered, some 1⟩] start ∧
      (∀ other, start.phase other ≠ .parkedReceive) ∧
      Course start
        [⟨.receive 0, .blocked, none⟩, ⟨.finishReceive 1, .received 7, none⟩,
          ⟨.cancelReceive 0, .withdrawn, none⟩, ⟨.send 2 8, .delivered, none⟩] last ∧
      Course (ofCapacity 1)
        [⟨.receive 1, .blocked, none⟩, ⟨.send 2 7, .delivered, some 1⟩,
          ⟨.finishReceive 1, .received 7, none⟩, ⟨.send 2 8, .delivered, none⟩]
        (last.offering offered) := by
  -- first the send, then the receive; every action of either course is answered by evaluation
  constructor
  · have hbefore : Course (ofCapacity 0 : Exchange (Fin 3)) [⟨.send 0 5, .blocked, none⟩] _ :=
      .cons rfl rfl .nil
    obtain ⟨start, last, hbefore, hcourse⟩ : ∃ start last : Exchange (Fin 3),
        Course (ofCapacity 0) [⟨.send 0 5, .blocked, none⟩] start ∧
          Course start
            [⟨.send 1 6, .blocked, none⟩, ⟨.receive 2, .blocked, some 0⟩,
              ⟨.cancelSend 1, .withdrawn, none⟩, ⟨.finishSend 0 5, .delivered, some 2⟩,
              ⟨.finishReceive 2, .received 5, none⟩] last :=
      ⟨_, _, hbefore, .cons rfl rfl (.cons rfl rfl (.cons ⟨6, Or.inl rfl⟩ rfl
        (.cons rfl rfl (.cons rfl rfl .nil))))⟩
    have hparts : Course start (⟨.send 1 6, .blocked, none⟩ :: ([⟨.receive 2, .blocked, some 0⟩] ++
        ⟨.cancelSend 1, .withdrawn, none⟩ :: [⟨.finishSend 0 5, .delivered, some 2⟩,
          ⟨.finishReceive 2, .received 5, none⟩])) last := hcourse
    obtain ⟨-, offered, herased⟩ :=
      Course.erase_withdrawn (by decide) hbefore hparts (.send (by simp))
    exact ⟨start, last, offered, by decide, hbefore, hcourse, herased⟩
  · have hbefore : Course (ofCapacity 1 : Exchange (Fin 3))
        [⟨.receive 1, .blocked, none⟩, ⟨.send 2 7, .delivered, some 1⟩] _ :=
      .cons rfl rfl (.cons rfl rfl .nil)
    obtain ⟨start, last, hbefore, hparked, hcourse⟩ : ∃ start last : Exchange (Fin 3),
        Course (ofCapacity 1) [⟨.receive 1, .blocked, none⟩, ⟨.send 2 7, .delivered, some 1⟩]
            start ∧
          (∀ other, start.phase other ≠ .parkedReceive) ∧
          Course start
            [⟨.receive 0, .blocked, none⟩, ⟨.finishReceive 1, .received 7, none⟩,
              ⟨.cancelReceive 0, .withdrawn, none⟩, ⟨.send 2 8, .delivered, none⟩] last :=
      ⟨_, _, hbefore, by decide, .cons rfl rfl (.cons rfl rfl (.cons (Or.inl rfl) rfl
        (.cons rfl rfl .nil)))⟩
    have hparts : Course start (⟨.receive 0, .blocked, none⟩ ::
        ([⟨.finishReceive 1, .received 7, none⟩] ++
          ⟨.cancelReceive 0, .withdrawn, none⟩ :: [⟨.send 2 8, .delivered, none⟩])) last := hcourse
    obtain ⟨-, offered, herased⟩ :=
      Course.erase_withdrawn (by decide) hbefore hparts (.receive hparked (by simp))
    exact ⟨start, last, offered, by decide, hbefore, hparked, hcourse, herased⟩

end Erase

end Exchange

end NodeGrid
