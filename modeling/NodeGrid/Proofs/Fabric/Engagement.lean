import NodeGrid.Fabric
import NodeGrid.Proofs.Channel.Accounts
import Mathlib.Algebra.BigOperators.Fin

/-!
# Tasks that are engaged with a fabric

A task takes part in at most one operation at a time, on one channel of the
fabric.  Its `Engagement` is that operation.  An engaged task either waits in its
channel or has been woken and is ready; so every channel of a fabric, together
with what its tasks are engaged in, is an exchange (`Fabric.exchange`).

A fabric is sound if all of its exchanges are and no task is ready twice.  An
operation on one channel leaves the exchanges of the others as they are
(`exchange_update_of_ne`), so that what is known about the actions of an
exchange carries over to the operations of a fabric.
-/

namespace NodeGrid

/-- The operation that a task has outstanding. -/
inductive Engagement (n : ℕ) where
  | sending (k : Fin n) (value : Int64)
  | receiving (k : Fin n)
deriving DecidableEq

namespace Engagement

variable {n : ℕ}

/-- The channel that the operation is on. -/
def channel : Engagement n → Fin n
  | .sending k _ => k
  | .receiving k => k

/-- Where the task stands with the channel of its operation. -/
def phase (isReady : Bool) : Engagement n → Phase
  | .sending _ value => bif isReady then .wokenSend value else .parkedSend value
  | .receiving _ => bif isReady then .wokenReceive else .parkedReceive

/-- Where a task stands with the channel `k`. -/
def phaseAt (k : Fin n) (isReady : Bool) : Option (Engagement n) → Phase
  | none => .idle
  | some engagement => if engagement.channel = k then engagement.phase isReady else .idle

/-- What a send leaves its task engaged in. -/
@[simp] def ofSend (k : Fin n) (value : Int64) : SendStatus → Option (Engagement n)
  | .delivered => none
  | .blocked => some (.sending k value)

/-- What a receive leaves its task engaged in. -/
@[simp] def ofReceive (k : Fin n) : ReceiveStatus → Option (Engagement n)
  | .received _ => none
  | .blocked => some (.receiving k)

variable {k : Fin n} {isReady : Bool} {engagement : Option (Engagement n)}

@[simp] theorem phaseAt_none : phaseAt k isReady none = .idle := rfl

@[simp] theorem phaseAt_sending {value : Int64} :
    phaseAt k isReady (some (.sending k value)) =
      bif isReady then .wokenSend value else .parkedSend value :=
  if_pos rfl

@[simp] theorem phaseAt_receiving :
    phaseAt k isReady (some (.receiving k)) =
      bif isReady then .wokenReceive else .parkedReceive :=
  if_pos rfl

/-- A task is idle at the channels that it is not engaged with. -/
theorem phaseAt_of_ne {j : Fin n} (hne : j ≠ k)
    (hchannel : ∀ operation, engagement = some operation → operation.channel = k) :
    phaseAt j isReady engagement = .idle := by
  cases engagement with
  | none => rfl
  | some operation =>
      refine if_neg fun heq => hne ?_
      rw [← heq, hchannel operation rfl]

@[simp] theorem wake_phaseAt : (phaseAt k isReady engagement).wake = phaseAt k true engagement := by
  cases engagement with
  | none => rfl
  | some operation =>
      by_cases hchannel : operation.channel = k
      · simp only [phaseAt, hchannel, if_true]
        cases operation <;> cases isReady <;> rfl
      · simp only [phaseAt, hchannel, if_false]
        rfl

theorem phaseAt_eq_parkedSend_iff {value : Int64} :
    phaseAt k isReady engagement = .parkedSend value ↔
      isReady = false ∧ engagement = some (.sending k value) := by
  rcases engagement with - | ⟨j, other⟩ | j
  · simp [phaseAt]
  · by_cases hj : j = k <;> cases isReady <;> simp [phaseAt, channel, phase, hj]
  · by_cases hj : j = k <;> cases isReady <;> simp [phaseAt, channel, phase, hj]

theorem phaseAt_eq_parkedReceive_iff :
    phaseAt k isReady engagement = .parkedReceive ↔
      isReady = false ∧ engagement = some (.receiving k) := by
  rcases engagement with - | ⟨j, other⟩ | j
  · simp [phaseAt]
  · by_cases hj : j = k <;> cases isReady <;> simp [phaseAt, channel, phase, hj]
  · by_cases hj : j = k <;> cases isReady <;> simp [phaseAt, channel, phase, hj]

theorem phaseAt_eq_wokenSend_iff {value : Int64} :
    phaseAt k isReady engagement = .wokenSend value ↔
      isReady = true ∧ engagement = some (.sending k value) := by
  rcases engagement with - | ⟨j, other⟩ | j
  · simp [phaseAt]
  · by_cases hj : j = k <;> cases isReady <;> simp [phaseAt, channel, phase, hj]
  · by_cases hj : j = k <;> cases isReady <;> simp [phaseAt, channel, phase, hj]

@[simp] theorem phaseAt_ofSend {value : Int64} {status : SendStatus} :
    phaseAt k false (ofSend k value status) = Exchange.sendPhase value status := by
  cases status with
  | delivered => rfl
  | blocked => exact phaseAt_sending

@[simp] theorem phaseAt_ofReceive {status : ReceiveStatus} :
    phaseAt k false (ofReceive k status) = Exchange.receivePhase status := by
  cases status with
  | received value => rfl
  | blocked => exact phaseAt_receiving

theorem channel_ofSend {value : Int64} {status : SendStatus} {operation : Engagement n}
    (hoperation : ofSend k value status = some operation) : operation.channel = k := by
  cases status <;> cases hoperation
  rfl

theorem channel_ofReceive {status : ReceiveStatus} {operation : Engagement n}
    (hoperation : ofReceive k status = some operation) : operation.channel = k := by
  cases status <;> cases hoperation
  rfl

end Engagement

namespace Fabric

variable {τ : Type} {n : ℕ}

@[simp] theorem ready_withReady (fabric : Fabric τ n) (ready : List τ) :
    (fabric.withReady ready).ready = ready := rfl

@[simp] theorem ready_update (fabric : Fabric τ n) (k : Fin n) (woken : Option τ)
    (channel : Channel τ) :
    (fabric.update k woken channel).ready = fabric.ready ++ woken.toList := rfl

@[simp] theorem channel_update_self (fabric : Fabric τ n) (k : Fin n) (woken : Option τ)
    (channel : Channel τ) : (fabric.update k woken channel).channel k = channel := by
  simp [Fabric.channel, update]

theorem channel_update_of_ne (fabric : Fabric τ n) {j k : Fin n} (woken : Option τ)
    (channel : Channel τ) (hne : j ≠ k) :
    (fabric.update k woken channel).channel j = fabric.channel j :=
  Vector.getElem_set_ne k.isLt j.isLt fun heq => hne (Fin.ext heq.symm)

variable [DecidableEq τ]

/-- A channel with what its tasks are in the middle of. -/
def exchange (fabric : Fabric τ n) (engaged : τ → Option (Engagement n)) (k : Fin n) :
    Exchange τ where
  channel := fabric.channel k
  phase := fun task => Engagement.phaseAt k (decide (task ∈ fabric.ready)) (engaged task)

/-- Every exchange is sound for the users of its channel, and the ready tasks are
engaged, each once in line. -/
structure Sound [Fintype τ] (fabric : Fabric τ n) (users : Fin n → Finset τ)
    (engaged : τ → Option (Engagement n)) : Prop where
  exchange : ∀ k, (fabric.exchange engaged k).Sound (users k)
  ready_nodup : fabric.ready.Nodup
  engaged_of_ready : ∀ task ∈ fabric.ready, (engaged task).isSome

variable {fabric : Fabric τ n} {users : Fin n → Finset τ} {engaged : τ → Option (Engagement n)}
  {k : Fin n} {task : τ} {woken : Option τ} {new : Option (Engagement n)}

/-! ## One operation -/

/-- An operation takes its task out of the line and wakes at most one other.  For
its own channel this is an action of the exchange. -/
theorem exchange_update_self (hnodup : fabric.ready.Nodup) (hne : woken ≠ some task)
    (channel : Channel τ) :
    ((fabric.withReady (fabric.ready.erase task)).update k woken channel).exchange
        (Function.update engaged task new) k =
      (fabric.exchange engaged k).advance channel woken task
        (Engagement.phaseAt k false new) := by
  unfold exchange Exchange.advance
  congr 1
  · exact channel_update_self ..
  · funext other
    by_cases htask : other = task
    · subst htask
      have hout : other ∉ fabric.ready.erase other ++ woken.toList := by
        simpa [hnodup.not_mem_erase, Option.mem_toList] using hne
      simp only [ready_update, ready_withReady, Function.update_self, hout, decide_false]
    · simp only [ready_update, ready_withReady, Function.update_of_ne htask, List.mem_append,
        List.mem_erase_of_ne htask, Option.mem_toList]
      -- whoever is woken joins the line of ready tasks
      by_cases hwoken : woken = some other
      · subst hwoken
        simp
      · rw [Exchange.wakeIn_of_ne hwoken]
        simp [hwoken]

/-- The other channels do not notice an operation. -/
theorem exchange_update_of_ne {j : Fin n} (hj : j ≠ k)
    (hold : ∀ operation, engaged task = some operation → operation.channel = k)
    (hnew : ∀ operation, new = some operation → operation.channel = k)
    (hwoken : ∀ other, woken = some other →
      ∀ operation, engaged other = some operation → operation.channel = k)
    (channel : Channel τ) :
    ((fabric.withReady (fabric.ready.erase task)).update k woken channel).exchange
        (Function.update engaged task new) j =
      fabric.exchange engaged j := by
  unfold exchange
  congr 1
  · exact channel_update_of_ne _ woken channel hj
  · -- a task changes its phase if it acts or is woken, but on the channel of the operation only
    funext other
    by_cases htask : other = task
    · subst htask
      rw [Function.update_self, Engagement.phaseAt_of_ne hj hnew,
        Engagement.phaseAt_of_ne hj hold]
    · rw [Function.update_of_ne htask]
      by_cases hother : woken = some other
      · rw [Engagement.phaseAt_of_ne hj (hwoken other hother),
          Engagement.phaseAt_of_ne hj (hwoken other hother)]
      · simp [List.mem_erase_of_ne htask, hother]

/-- An operation that keeps the exchange of its own channel sound keeps the fabric
sound. -/
theorem Sound.update [Fintype τ] (hsound : fabric.Sound users engaged) (k : Fin n) (task : τ)
    (woken : Option τ) (channel : Channel τ) (new : Option (Engagement n))
    (hold : ∀ operation, engaged task = some operation → operation.channel = k)
    (hnew : ∀ operation, new = some operation → operation.channel = k)
    (hwoken : ∀ other, woken = some other → other ≠ task ∧ other ∉ fabric.ready ∧
      ∃ operation, engaged other = some operation ∧ operation.channel = k)
    (hnext : ((fabric.exchange engaged k).advance channel woken task
      (Engagement.phaseAt k false new)).Sound (users k)) :
    ((fabric.withReady (fabric.ready.erase task)).update k woken channel).Sound users
      (Function.update engaged task new) where
  exchange := by
    intro j
    -- the channel itself, and then the others
    by_cases hj : j = k
    · subst hj
      rw [exchange_update_self hsound.ready_nodup fun heq => (hwoken task heq).1 rfl]
      exact hnext
    · rw [exchange_update_of_ne hj hold hnew]
      · exact hsound.exchange j
      · intro other hother operation hoperation
        obtain ⟨-, -, engagement, hengaged, hchannel⟩ := hwoken other hother
        rw [hengaged] at hoperation
        cases hoperation
        exact hchannel
  ready_nodup := by
    rw [ready_update, ready_withReady]
    cases woken with
    | none => simpa using hsound.ready_nodup.erase task
    | some other =>
        -- the woken task was not ready before
        obtain ⟨hne, hout, -⟩ := hwoken other rfl
        refine List.nodup_append'.mpr ⟨hsound.ready_nodup.erase task, List.nodup_singleton other, ?_⟩
        simpa [List.mem_erase_of_ne hne] using hout
  engaged_of_ready := by
    intro other hother
    rw [ready_update, ready_withReady, List.mem_append, Option.mem_toList] at hother
    -- the task itself has left the line, and whoever was woken is engaged
    have hne : other ≠ task := by
      rintro rfl
      rcases hother with hmem | hmem
      · exact hsound.ready_nodup.not_mem_erase hmem
      · exact (hwoken other hmem).1 rfl
    rw [Function.update_of_ne hne]
    rcases hother with hmem | hmem
    · exact hsound.engaged_of_ready other (List.mem_of_mem_erase hmem)
    · obtain ⟨-, -, operation, hengaged, -⟩ := hwoken other hmem
      rw [hengaged]
      rfl

/-! ## The operations of a fabric -/

section Operations

variable {value : Int64}

/-- Whoever an operation wakes is parked, and so engaged and not in line. -/
theorem woken_of_parkedReceive {other : τ}
    (hphase : (fabric.exchange engaged k).phase other = .parkedReceive) :
    other ∉ fabric.ready ∧ ∃ operation, engaged other = some operation ∧ operation.channel = k := by
  obtain ⟨hready, hengaged⟩ := Engagement.phaseAt_eq_parkedReceive_iff.mp hphase
  exact ⟨of_decide_eq_false hready, _, hengaged, rfl⟩

theorem woken_of_parkedSend {other : τ}
    (hphase : (fabric.exchange engaged k).phase other = .parkedSend value) :
    other ∉ fabric.ready ∧ ∃ operation, engaged other = some operation ∧ operation.channel = k := by
  obtain ⟨hready, hengaged⟩ := Engagement.phaseAt_eq_parkedSend_iff.mp hphase
  exact ⟨of_decide_eq_false hready, _, hengaged, rfl⟩

theorem erase_ready {ready : List τ} (hready : fabric.ready = task :: ready) :
    task ∈ fabric.ready ∧ fabric.ready.erase task = ready := by
  rw [hready]
  exact ⟨List.mem_cons_self, List.erase_cons_head ..⟩

variable [Fintype τ]

theorem sound_ofCapacities {capacities : Vector ℕ n}
    (hroom : ∀ k, capacities.get k + (users k).card ≤ 2 ^ 63 - 1) :
    (ofCapacities capacities : Fabric τ n).Sound users fun _ => none where
  exchange := by
    intro k
    have hexchange : (ofCapacities capacities : Fabric τ n).exchange (fun _ => none) k =
        .ofCapacity (capacities.get k) := by
      have hget : capacities.get k = capacities[k.val] := rfl
      simp [Fabric.exchange, Fabric.channel, ofCapacities, Exchange.ofCapacity, hget]
    rw [hexchange]
    exact Exchange.sound_ofCapacity (hroom k)
  ready_nodup := List.nodup_nil
  engaged_of_ready := by simp [ofCapacities]

theorem Sound.not_mem_ready (hsound : fabric.Sound users engaged) (hidle : engaged task = none) :
    task ∉ fabric.ready := by
  intro hmem
  have hengaged := hsound.engaged_of_ready task hmem
  rw [hidle] at hengaged
  cases hengaged

theorem Sound.send (hsound : fabric.Sound users engaged) (k : Fin n) (value : Int64)
    (huser : task ∈ users k) (hidle : engaged task = none) :
    (fabric.send k value task).2.Sound users (Function.update engaged task
      (Engagement.ofSend k value (fabric.send k value task).1)) := by
  obtain ⟨⟨status, woken, channel⟩, hsend⟩ : ∃ outcome, (fabric.channel k).send value task = outcome :=
    ⟨_, rfl⟩
  have hphase : (fabric.exchange engaged k).phase task = .idle := by simp [Fabric.exchange, hidle]
  obtain ⟨hnext, hwoken⟩ := (hsound.exchange k).send huser hphase hsend
  -- the sender is idle, so it is not the receiver that it wakes
  have hupdate := hsound.update k task woken channel (Engagement.ofSend k value status)
    (by simp [hidle])
    (fun operation => Engagement.channel_ofSend)
    (fun other hother => by
      have hparked := hwoken other hother
      refine ⟨?_, woken_of_parkedReceive hparked⟩
      rintro rfl
      rw [hphase] at hparked
      cases hparked)
    (by rwa [Engagement.phaseAt_ofSend])
  rw [List.erase_of_not_mem (hsound.not_mem_ready hidle)] at hupdate
  simp only [Fabric.send, hsend]
  exact hupdate

theorem Sound.receive (hsound : fabric.Sound users engaged) (k : Fin n) (huser : task ∈ users k)
    (hidle : engaged task = none) :
    Yields (fabric.receive k task) fun (status, rest) =>
      rest.Sound users (Function.update engaged task (Engagement.ofReceive k status)) := by
  have hphase : (fabric.exchange engaged k).phase task = .idle := by simp [Fabric.exchange, hidle]
  obtain ⟨status, woken, channel, hreceive, hnext, hwoken⟩ := (hsound.exchange k).receive huser hphase
  -- the sender that is woken is another task, since this one was idle
  have hupdate := hsound.update k task woken channel (Engagement.ofReceive k status)
    (by simp [hidle])
    (fun operation => Engagement.channel_ofReceive)
    (fun other hother => by
      obtain ⟨value, hparked⟩ := hwoken other hother
      refine ⟨?_, woken_of_parkedSend hparked⟩
      rintro rfl
      rw [hphase] at hparked
      cases hparked)
    (by rwa [Engagement.phaseAt_ofReceive])
  rw [List.erase_of_not_mem (hsound.not_mem_ready hidle)] at hupdate
  refine ⟨(status, fabric.update k woken channel), ?_, hupdate⟩
  exact bind_eq_ok.mpr ⟨_, hreceive, rfl⟩

theorem Sound.finishSend {ready : List τ} (hsound : fabric.Sound users engaged)
    (hready : fabric.ready = task :: ready) (hengaged : engaged task = some (.sending k value)) :
    ((fabric.withReady ready).finishSend k value).Sound users (Function.update engaged task none) := by
  obtain ⟨hmem, herase⟩ := erase_ready hready
  have hphase : (fabric.exchange engaged k).phase task = .wokenSend value := by
    simp [Fabric.exchange, hengaged, hmem]
  have hupdate := hsound.update k task ((fabric.channel k).deliver value).1
    ((fabric.channel k).deliver value).2 none
    (by simp [hengaged, Engagement.channel]) (by simp)
    (fun other hother => by
      have hparked := (hsound.exchange k).lines.woken_receiver hother
      refine ⟨?_, woken_of_parkedReceive hparked⟩
      rintro rfl
      rw [hphase] at hparked
      cases hparked)
    ((hsound.exchange k).deliver hphase)
  rw [herase] at hupdate
  exact hupdate

/-- A woken receiver finds its value and ends its receive. -/
theorem Sound.finishReceive {ready : List τ} (hsound : fabric.Sound users engaged)
    (hready : fabric.ready = task :: ready) (hengaged : engaged task = some (.receiving k)) :
    Yields ((fabric.withReady ready).finishReceive k) fun (_, rest) =>
      rest.Sound users (Function.update engaged task none) := by
  obtain ⟨hmem, herase⟩ := erase_ready hready
  have hphase : (fabric.exchange engaged k).phase task = .wokenReceive := by
    simp [Fabric.exchange, hengaged, hmem]
  obtain ⟨taken, channel, htake, hnext⟩ := (hsound.exchange k).take hphase
  have hupdate := hsound.update k task none channel none
    (by simp [hengaged, Engagement.channel]) (by simp) (by simp) hnext
  rw [herase] at hupdate
  exact ⟨_, bind_eq_ok.mpr ⟨_, htake, rfl⟩, hupdate⟩

/-- A sender that is taken out of its line was not woken. -/
theorem Sound.cancelSend {rest : Fabric τ n} (hsound : fabric.Sound users engaged)
    (hcancel : fabric.cancelSend k task = some rest) :
    rest.Sound users (Function.update engaged task none) := by
  obtain ⟨channel, hchannel, rfl⟩ := Option.map_eq_some_iff.mp hcancel
  obtain ⟨hnext, value, hphase⟩ := (hsound.exchange k).cancelSend hchannel
  obtain ⟨hout, operation, hengaged, hoperation⟩ := woken_of_parkedSend hphase
  have hupdate := hsound.update k task none channel none
    (by simpa [hengaged] using hoperation) (by simp) (by simp) hnext
  rw [List.erase_of_not_mem hout] at hupdate
  exact hupdate

/-- A receiver that is taken out of its line was not woken. -/
theorem Sound.cancelReceive {rest : Fabric τ n} (hsound : fabric.Sound users engaged)
    (hcancel : fabric.cancelReceive k task = some rest) :
    rest.Sound users (Function.update engaged task none) := by
  obtain ⟨channel, hchannel, rfl⟩ := Option.map_eq_some_iff.mp hcancel
  obtain ⟨hnext, hphase⟩ := (hsound.exchange k).cancelReceive hchannel
  obtain ⟨hout, operation, hengaged, hoperation⟩ := woken_of_parkedReceive hphase
  have hupdate := hsound.update k task none channel none
    (by simpa [hengaged] using hoperation) (by simp) (by simp) hnext
  rw [List.erase_of_not_mem hout] at hupdate
  exact hupdate

/-! ## Where engaged tasks are found -/

/-- The tasks that are ready or wait in a channel, each as often as it is in
line. -/
def queued (fabric : Fabric τ n) : List τ :=
  fabric.ready ++ (List.finRange n).flatMap fun k =>
    (fabric.channel k).emptySlots.waiters ++ (fabric.channel k).filledSlots.waiters

/-- The tasks that wait for a slot are the senders that have not been woken. -/
theorem Sound.mem_emptySlots_iff (hsound : fabric.Sound users engaged) :
    task ∈ (fabric.channel k).emptySlots.waiters ↔
      task ∉ fabric.ready ∧ ∃ value, engaged task = some (.sending k value) := by
  refine ((hsound.exchange k).lines.senders.mem_iff task).trans ?_
  simp only [Phase.isParkedSend_iff, Fabric.exchange, Engagement.phaseAt_eq_parkedSend_iff,
    decide_eq_false_iff_not, exists_and_left]

/-- The tasks that wait for a value are the receivers that have not been woken. -/
theorem Sound.mem_filledSlots_iff (hsound : fabric.Sound users engaged) :
    task ∈ (fabric.channel k).filledSlots.waiters ↔
      task ∉ fabric.ready ∧ engaged task = some (.receiving k) := by
  refine ((hsound.exchange k).lines.receivers.mem_iff task).trans ?_
  simp only [Phase.isParkedReceive_iff, Fabric.exchange,
    Engagement.phaseAt_eq_parkedReceive_iff, decide_eq_false_iff_not]

/-- Whoever is engaged and not ready waits in the channel of its operation. -/
theorem Sound.exists_waiting (hsound : fabric.Sound users engaged)
    (hengaged : (engaged task).isSome) (hready : task ∉ fabric.ready) :
    ∃ k, task ∈ (fabric.channel k).emptySlots.waiters ∨
      task ∈ (fabric.channel k).filledSlots.waiters := by
  obtain ⟨operation, hoperation⟩ := Option.isSome_iff_exists.mp hengaged
  cases operation with
  | sending k value => exact ⟨k, Or.inl (hsound.mem_emptySlots_iff.mpr ⟨hready, value, hoperation⟩)⟩
  | receiving k => exact ⟨k, Or.inr (hsound.mem_filledSlots_iff.mpr ⟨hready, hoperation⟩)⟩

/-- A send that is not taken back has been woken. -/
theorem Sound.mem_ready_of_cancelSend (hsound : fabric.Sound users engaged)
    (hengaged : engaged task = some (.sending k value))
    (hrefused : fabric.cancelSend k task = none) : task ∈ fabric.ready := by
  have hchannel := Option.map_eq_none_iff.mp (Option.map_eq_none_iff.mp hrefused)
  have hlines := (hsound.exchange k).lines.senders
  by_contra hout
  have hwaits := hsound.mem_emptySlots_iff.mpr ⟨hout, value, hengaged⟩
  exact hlines.cancel_eq_none_iff.mp hchannel ((hlines.mem_iff task).mp hwaits)

/-- A receive that is not taken back has been woken, or a sender on its channel has. -/
theorem Sound.mem_ready_of_cancelReceive (hsound : fabric.Sound users engaged)
    (hengaged : engaged task = some (.receiving k))
    (hrefused : fabric.cancelReceive k task = none) :
    task ∈ fabric.ready ∨
      ∃ other ∈ fabric.ready, ∃ value, engaged other = some (.sending k value) := by
  by_cases hready : task ∈ fabric.ready
  · exact Or.inl hready
  · have hparked : (fabric.exchange engaged k).phase task = .parkedReceive :=
      Engagement.phaseAt_eq_parkedReceive_iff.mpr ⟨decide_eq_false hready, hengaged⟩
    obtain ⟨other, sent, hphase⟩ :=
      (hsound.exchange k).exists_wokenSend_of_refused hparked (Option.map_eq_none_iff.mp hrefused)
    obtain ⟨hother, hsending⟩ := Engagement.phaseAt_eq_wokenSend_iff.mp hphase
    exact Or.inr ⟨other, of_decide_eq_true hother, sent, hsending⟩

/-- A task that waits does so once, in the channel of its operation. -/
theorem Sound.count_waiters (hsound : fabric.Sound users engaged) (task : τ) (k : Fin n) :
    ((fabric.channel k).emptySlots.waiters ++ (fabric.channel k).filledSlots.waiters).count task =
      if task ∉ fabric.ready ∧ (engaged task).map Engagement.channel = some k then 1 else 0 := by
  have hsenders : (fabric.channel k).emptySlots.waiters.Nodup :=
    (hsound.exchange k).lines.senders.nodup
  have hreceivers : (fabric.channel k).filledSlots.waiters.Nodup :=
    (hsound.exchange k).lines.receivers.nodup
  -- nobody stands in both lines, since a task is engaged in one operation
  rw [List.count_append, hsenders.count, hreceivers.count]
  by_cases hready : task ∈ fabric.ready
  · simp [hsound.mem_emptySlots_iff, hsound.mem_filledSlots_iff, hready]
  · obtain hengaged | ⟨j, value, hengaged⟩ | ⟨j, hengaged⟩ : engaged task = none ∨
        (∃ j value, engaged task = some (.sending j value)) ∨
          ∃ j, engaged task = some (.receiving j) := by
      rcases engaged task with - | ⟨j, value⟩ | j <;> simp
    all_goals
      simp [hsound.mem_emptySlots_iff, hsound.mem_filledSlots_iff, hready, hengaged,
        Engagement.channel]

/-- An engaged task is found in line exactly once, and no other task is. -/
theorem Sound.count_queued (hsound : fabric.Sound users engaged) (task : τ) :
    fabric.queued.count task = if (engaged task).isSome then 1 else 0 := by
  have hwaiting : ∀ k, _ := hsound.count_waiters task
  rw [queued, List.count_append, List.count_flatMap, hsound.ready_nodup.count]
  simp only [Function.comp_def, hwaiting, ← Fin.sum_univ_def]
  -- a ready task waits nowhere, any other engaged task in one channel
  by_cases hready : task ∈ fabric.ready
  · simp [hready, hsound.engaged_of_ready task hready]
  · cases hengaged : engaged task with
    | none => simp [hready]
    | some operation => simp [hready]

end Operations

end Fabric

end NodeGrid
