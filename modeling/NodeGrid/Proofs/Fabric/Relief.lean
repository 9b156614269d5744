import NodeGrid.Proofs.Channel.Refusal
import NodeGrid.Proofs.Fabric.Precedence

/-!
# Tasks that are due

A task is *due* if it has been woken, or if it waits for a value behind fewer receivers
than senders of its channel have been woken (`Fabric.IsDue`).  Each of those senders ends
its send with a value for the first receiver in line, so a due task cannot be left behind:
it stays due whatever other tasks do (`IsDue.begins`, `IsDue.resumes`,
`IsDue.withdraws`), and when no task is ready any more, no task is due
(`not_isDue_of_ready`).

A task whose withdrawal is refused is due (`Sound.isDue_of_cancelReceive`).  For a receive
this is the account of the channel: it is refused only if the woken senders hold the slots
that all parked receivers have brought.
-/

namespace NodeGrid

variable {τ : Type}

/-! ## On one channel -/

namespace Exchange

variable [Fintype τ] {exchange : Exchange τ} {users : Finset τ} {task : τ}

/-- The task waits for a value behind fewer receivers than senders have been woken. -/
structure Awaits (exchange : Exchange τ) [DecidableEq τ] (task : τ) : Prop where
  mem_waiters : task ∈ exchange.channel.filledSlots.waiters
  idxOf_lt : exchange.channel.filledSlots.waiters.idxOf task < exchange.wokenSenders

variable [DecidableEq τ] {action : Action τ} {reply : Reply} {woken : Option τ}
  {channel : Channel τ}

/-- A woken sender stays one until it acts itself. -/
theorem wokenSenders_le_advance (exchange : Exchange τ) (channel : Channel τ) {actor : τ}
    (hself : woken ≠ some actor) (phase : Phase) :
    exchange.wokenSenders ≤ (exchange.advance channel woken actor phase).wokenSenders +
      (exchange.phase actor).isWokenSend.toNat := by
  -- waking a task turns no woken sender into anything else
  have hwake : exchange.wokenSenders ≤ tally Phase.isWokenSend (wakeIn exchange.phase woken) := by
    refine Finset.card_le_card fun other hother => ?_
    rw [Finset.mem_filter] at hother ⊢
    obtain ⟨value, hphase⟩ := Phase.isWokenSend_iff.mp hother.2
    refine ⟨Finset.mem_univ other, ?_⟩
    by_cases hwoken : woken = some other
    · subst hwoken
      rw [wakeIn_some, Function.update_self, hphase]
      rfl
    · rw [wakeIn_of_ne hwoken, hphase]
      rfl
  -- so only the phase of the actor counts
  have hupdate := tally_update Phase.isWokenSend (wakeIn exchange.phase woken) actor phase
  rw [wakeIn_of_ne hself] at hupdate
  simp only [wokenSenders, advance] at hwake ⊢
  omega

/-- Whoever awaits a value still does after an action of another task that does not wake it. -/
theorem Awaits.advance (hawaits : exchange.Awaits task)
    (hserve : serve exchange.channel action = .ok (reply, woken, channel))
    (hne : task ≠ action.task) (hwoken : woken ≠ some task) (hself : woken ≠ some action.task)
    (hfinisher : (exchange.phase action.task).isWokenSend.toNat ≤ action.finisher?.toList.length)
    (phase : Phase) : (exchange.advance channel woken action.task phase).Awaits task := by
  have hstays : ¬ (action = .cancelReceive task ∧ reply = .withdrawn) := by
    rintro ⟨rfl, -⟩
    exact hne rfl
  obtain ⟨hmem, hplace⟩ := waits_of_serve hserve hawaits.mem_waiters hwoken hstays
  have hcount := wokenSenders_le_advance exchange channel hself phase
  have hlt := hawaits.idxOf_lt
  refine ⟨hmem, ?_⟩
  rw [advance_channel]
  omega

/-- A receiver that is refused awaits its value. -/
theorem Sound.awaits_of_refused (hsound : exchange.Sound users)
    (hparked : exchange.phase task = .parkedReceive)
    (hrefused : exchange.channel.cancelReceive task = none) : exchange.Awaits task := by
  have hmem : task ∈ exchange.channel.filledSlots.waiters :=
    (hsound.lines.receivers.mem_iff task).mpr (by simp [hparked])
  have hheld := (hsound.cancelReceive_eq_none_iff hparked).mp hrefused
  have hline : exchange.channel.filledSlots.waiting = exchange.parkedReceivers :=
    hsound.lines.receivers.waiting_eq_tally
  have hplace := List.idxOf_lt_length_of_mem hmem
  refine ⟨hmem, ?_⟩
  rw [Semaphore.waiting] at hline
  omega

end Exchange

/-! ## On a fabric -/

namespace Fabric

variable {n : ℕ} [Fintype τ] [DecidableEq τ]

/-- The task has been woken, or is going to be by senders that have. -/
inductive IsDue (fabric : Fabric τ n) (engaged : τ → Option (Engagement n)) (task : τ) : Prop where
  | woken (hready : task ∈ fabric.ready)
  | awaits {k : Fin n} (hawaits : (fabric.exchange engaged k).Awaits task)

variable {fabric rest : Fabric τ n} {users : Fin n → Finset τ}
  {engaged : τ → Option (Engagement n)} {k : Fin n} {task other : τ} {woken : Option τ}
  {new engagement : Option (Engagement n)} {channel : Channel τ} {value : Int64}
  {reach : Fin n → Prop} {deeds : List (Deed n)} {ready : List τ}

/-- A send that is not taken back is due. -/
theorem Sound.isDue_of_cancelSend (hsound : fabric.Sound users engaged)
    (hengaged : engaged task = some (.sending k value))
    (hrefused : fabric.cancelSend k task = none) : fabric.IsDue engaged task :=
  .woken (hsound.mem_ready_of_cancelSend hengaged hrefused)

/-- A receive that is not taken back is due. -/
theorem Sound.isDue_of_cancelReceive (hsound : fabric.Sound users engaged)
    (hengaged : engaged task = some (.receiving k))
    (hrefused : fabric.cancelReceive k task = none) : fabric.IsDue engaged task := by
  by_cases hready : task ∈ fabric.ready
  · exact .woken hready
  · have hparked : (fabric.exchange engaged k).phase task = .parkedReceive :=
      Engagement.phaseAt_eq_parkedReceive_iff.mpr ⟨decide_eq_false hready, hengaged⟩
    exact .awaits ((hsound.exchange k).awaits_of_refused hparked
      (Option.map_eq_none_iff.mp hrefused))

/-- If no task is ready, none is due. -/
theorem not_isDue_of_ready (hready : fabric.ready = []) : ¬ fabric.IsDue engaged task := by
  rintro (hmem | @⟨k, hawaits⟩)
  · rw [hready] at hmem
    cases hmem
  · have hpos := (Nat.zero_le _).trans_lt hawaits.idxOf_lt
    obtain ⟨sender, hsender⟩ := Finset.card_pos.mp hpos
    obtain ⟨value, hphase⟩ := Phase.isWokenSend_iff.mp (Finset.mem_filter.mp hsender).2
    obtain ⟨hmem, -⟩ := Engagement.phaseAt_eq_wokenSend_iff.mp hphase
    simp [hready] at hmem

/-! ## Operations of other tasks -/

/-- Whoever is due stays so when another task acts on a channel.  A woken sender that acts
ends its send. -/
theorem IsDue.after {action : Exchange.Action τ} {reply : Exchange.Reply}
    (hdue : fabric.IsDue engaged other) (hsound : fabric.Sound users engaged)
    (hserve : Exchange.serve (fabric.channel k) action = .ok (reply, woken, channel))
    (htask : action.task = task) (htouch : fabric.Touch users engaged k task new woken)
    (hne : other ≠ task) (hfinisher : ((fabric.exchange engaged k).phase task).isWokenSend.toNat ≤
      action.finisher?.toList.length) :
    (fabric.after k task woken channel).IsDue (Function.update engaged task new) other := by
  subst htask
  have hself : woken ≠ some action.task := fun heq => (htouch.woken _ heq).1 rfl
  cases hdue with
  | woken hready =>
      exact .woken (mem_ready_after.mpr (Or.inl ((List.mem_erase_of_ne hne).mpr hready)))
  | @awaits j hawaits =>
      by_cases hwoken : woken = some other
      · exact .woken (mem_ready_after.mpr (Or.inr hwoken))
      -- whoever is due on another channel does not notice
      by_cases hj : j = k
      · subst hj
        refine .awaits (k := j) ?_
        rw [exchange_update_self hsound.ready_nodup hself]
        exact hawaits.advance hserve hne hwoken hself hfinisher _
      · refine .awaits (k := j) ?_
        rw [exchange_update_of_ne hj htouch.old_channel htouch.new_channel ?_]
        · exact hawaits
        · intro third hthird operation hoperation
          obtain ⟨-, -, -, old, hold, hchannel⟩ := htouch.woken third hthird
          rw [hold] at hoperation
          cases hoperation
          exact hchannel

theorem IsDue.offers (hdue : fabric.IsDue engaged other) (hsound : fabric.Sound users engaged)
    (hreach : ∀ k, reach k → task ∈ users k) (hidle : engaged task = none) (hne : other ≠ task)
    (hoffers : fabric.Offers reach task deeds rest new) :
    rest.IsDue (Function.update engaged task new) other := by
  cases hoffers with
  | nothing => rwa [← hidle, Function.update_eq_self]
  | @send k value status _ hk hsend =>
      obtain ⟨woken, channel, hchannel, rfl⟩ := after_of_send (hsound.not_mem_ready hidle) hsend
      obtain ⟨htouch, -⟩ := hsound.touch_send (hreach k hk) hidle hchannel
      have hserve : Exchange.serve (fabric.channel k) (.send task value) =
          .ok (.ofSend status, woken, channel) := by simp only [Exchange.serve, hchannel]
      exact hdue.after hsound hserve rfl htouch hne (by simp [Fabric.exchange, hidle])

/-- Whoever is due stays so when another task asks for a value. -/
theorem IsDue.receive {status : ReceiveStatus} (hdue : fabric.IsDue engaged other)
    (hsound : fabric.Sound users engaged) (huser : task ∈ users k) (hidle : engaged task = none)
    (hne : other ≠ task) (hreceive : fabric.receive k task = .ok (status, rest)) :
    rest.IsDue (Function.update engaged task (Engagement.ofReceive k status)) other := by
  obtain ⟨woken, channel, hchannel, rfl⟩ := after_of_receive (hsound.not_mem_ready hidle) hreceive
  obtain ⟨htouch, -⟩ := hsound.touch_receive huser hidle hchannel
  have hserve : Exchange.serve (fabric.channel k) (.receive task) =
      .ok (.ofReceive status, woken, channel) := bind_eq_ok.mpr ⟨_, hchannel, rfl⟩
  exact hdue.after hsound hserve rfl htouch hne (by simp [Fabric.exchange, hidle])

theorem IsDue.begins (hdue : fabric.IsDue engaged other) (hsound : fabric.Sound users engaged)
    (hreach : ∀ k, reach k → task ∈ users k) (hidle : engaged task = none) (hne : other ≠ task)
    (hbegins : fabric.Begins reach task deeds rest new) :
    rest.IsDue (Function.update engaged task new) other := by
  cases hbegins with
  | offers hoffers => exact hdue.offers hsound hreach hidle hne hoffers
  | @waits k _ hk hreceive => exact hdue.receive hsound (hreach k hk) hidle hne hreceive
  | @takes k value between _ deeds _ hk hreceive hoffers =>
      have hbetween := (hsound.receive k (hreach k hk) hidle).of_ok hreceive
      have hoffered := (hdue.receive hsound (hreach k hk) hidle hne hreceive).offers hbetween hreach
        (Function.update_self ..) hne hoffers
      rwa [Function.update_idem] at hoffered

theorem IsDue.resumes (hdue : fabric.IsDue engaged other) (hsound : fabric.Sound users engaged)
    (hreach : ∀ k, reach k → task ∈ users k) (hready : fabric.ready = task :: ready)
    (hengaged : engaged task = engagement) (hne : other ≠ task)
    (hresumes : (fabric.withReady ready).Resumes reach task engagement deeds rest new) :
    rest.IsDue (Function.update engaged task new) other := by
  have hmem : task ∈ fabric.ready := by simp [hready]
  cases hresumes with
  | @delivers k value =>
      obtain ⟨woken, channel, hchannel, hrest⟩ := after_of_finishSend (k := k) hready
      obtain ⟨htouch, -⟩ := hsound.touch_finishSend hmem hengaged hchannel
      have hserve : Exchange.serve (fabric.channel k) (.finishSend task value) =
          .ok (.delivered, woken, channel) := by simp only [Exchange.serve, hchannel]
      rw [hrest]
      exact hdue.after hsound hserve rfl htouch hne (Bool.toNat_le _)
  | @takes k value between _ deeds _ hfinish hoffers =>
      have hbetween := (hsound.finishReceive hready hengaged).of_ok hfinish
      obtain ⟨channel, hchannel, rfl⟩ := after_of_finishReceive hready hfinish
      have hserve : Exchange.serve (fabric.channel k) (.finishReceive task) =
          .ok (.received value, none, channel) := bind_eq_ok.mpr ⟨_, hchannel, rfl⟩
      -- the value is taken first, and the send that may follow is seen by what is left
      have htaken : (fabric.after k task none channel).IsDue (Function.update engaged task none)
          other := hdue.after hsound hserve rfl (hsound.touch_of_engaged hengaged) hne
        (by simp [Fabric.exchange, hengaged, hmem])
      have hoffered := htaken.offers hbetween hreach (Function.update_self ..) hne hoffers
      rwa [Function.update_idem] at hoffered

theorem IsDue.withdraws (hdue : fabric.IsDue engaged other) (hsound : fabric.Sound users engaged)
    (hengaged : engaged task = engagement) (hne : other ≠ task)
    (hwithdraws : fabric.Withdraws task engagement deeds rest) :
    rest.IsDue (Function.update engaged task none) other := by
  cases hwithdraws with
  | @send k value _ hcancel =>
      have hout := hsound.not_mem_ready_of_cancelSend hcancel
      obtain ⟨channel, hchannel, rfl⟩ := after_of_cancelSend hout hcancel
      have hserve := Exchange.serve_cancelSend_eq_withdrawn_iff.mpr ⟨hchannel, rfl⟩
      exact hdue.after hsound hserve rfl (hsound.touch_of_engaged hengaged) hne
        (by simp [Fabric.exchange, hengaged, hout])
  | @receive k _ hcancel =>
      have hout := hsound.not_mem_ready_of_cancelReceive hcancel
      obtain ⟨channel, hchannel, rfl⟩ := after_of_cancelReceive hout hcancel
      have hserve := Exchange.serve_cancelReceive_eq_withdrawn_iff.mpr ⟨hchannel, rfl⟩
      exact hdue.after hsound hserve rfl (hsound.touch_of_engaged hengaged) hne
        (by simp [Fabric.exchange, hengaged, hout])

end Fabric

end NodeGrid
