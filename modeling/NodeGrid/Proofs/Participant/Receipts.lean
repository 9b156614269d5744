import NodeGrid.Proofs.Participant.Streams

/-!
# What becomes of values that are received

Whoever takes a value out of a channel does one of three things with it (`Use`): an
instruction reads it, a read that was abandoned drops it, or a sink keeps it.
`Participant.Takes` says what each of them means for the participant.

In a move, a participant takes one value at most, and there is only one thing that it can
do with it (`Moves.takes`).  So there is a receipt for each value that it takes as long as
it keeps its program (`Participant.Audited`).  The receipts of a sink are for its results,
one for each (`Audited.sink`).
-/

namespace NodeGrid

variable {n : ℕ}

/-- What becomes of a value that is taken out of a channel. -/
inductive Use where
  /-- An instruction goes on with it. -/
  | read
  /-- Nobody is interested in it any more. -/
  | dropped
  /-- It is among the results of a sink. -/
  | collected
deriving DecidableEq

/-- A value that was taken out of a channel, and what became of it. -/
structure Receipt (n : ℕ) where
  channel : Fin n
  value : Int64
  use : Use
deriving DecidableEq

/-- What the receipt is for. -/
def Receipt.taking (receipt : Receipt n) : Fin n × Int64 := (receipt.channel, receipt.value)

/-- The channel and the value of a receive. -/
def Comm.taking? : Comm n → Option (Fin n × Int64)
  | .received k value => some (k, value)
  | .sent _ _ => none

/-- The values that are taken out of channels, in order. -/
def takings (deeds : List (Deed n)) : List (Fin n × Int64) :=
  (comms deeds).filterMap Comm.taking?

@[simp] theorem takings_nil : takings ([] : List (Deed n)) = [] := rfl

@[simp] theorem takings_append (first second : List (Deed n)) :
    takings (first ++ second) = takings first ++ takings second := by
  simp [takings]

theorem takings_cons (deed : Deed n) (rest : List (Deed n)) :
    takings (deed :: rest) = (deed.comm?.bind Comm.taking?).toList ++ takings rest := by
  rw [takings, comms_cons, List.filterMap_append]
  cases deed.comm? with
  | none => rfl
  | some comm => cases comm <;> rfl

/-- Whoever only sends takes nothing. -/
theorem takings_eq_nil_of_sent {k : Fin n} {values later : List Int64} {deeds : List (Deed n)}
    (hsent : values.map (.sent k) = comms deeds ++ later.map (.sent k)) : takings deeds = [] := by
  have hnone : ∀ values : List Int64, (values.map (.sent k)).filterMap Comm.taking? = [] :=
    fun values => by simp [Comm.taking?]
  have hboth := congrArg (List.filterMap Comm.taking?) hsent
  rw [List.filterMap_append, hnone, hnone, List.append_nil] at hboth
  exact hboth.symm

/-- The node needs a value on the port, and goes on with it as `waiting`. -/
inductive Node.Needs (port : Port) : Node n → Node n → Prop where
  /-- The instruction to start next reads the port. -/
  | begins {node waiting : Node n} (hpending : node.pending = none)
      (habandoned : node.abandoned = none) (hdemand : node.demand = .ok (.reading port waiting)) :
      Needs port node waiting
  /-- The instruction that was started last waits for the value. -/
  | waits {node : Node n} (hpending : node.pending = some (.read port)) :
      Needs port node { node with pending := none }

namespace Participant

variable {τ : Type} {task : τ} {participant after : Participant n} {receipt other : Receipt n}
  {deeds : List (Deed n)}

/-- What taking a value means for a participant. -/
inductive Takes (task : τ) : Participant n → Receipt n → Participant n → Prop where
  /-- The value is the source of an instruction. -/
  | read {node waiting after : Node n} {port : Port} {k : Fin n} {value : Int64} {pause : Pause n}
      {fabric rest : Fabric τ n} {deeds : List (Deed n)} (hneeds : node.Needs port waiting)
      (hport : node.ports port = some k) (hpause : waiting.pauseAfterRead value = .ok pause)
      (hserved : pause.Served task fabric deeds after rest) :
      Takes task (.node node) ⟨k, value, .read⟩ (.node after)
  /-- The program that asked for the value is gone, and the node is as it was. -/
  | dropped {node : Node n} {port : Port} {k : Fin n} {value : Int64}
      (hpending : node.pending = none) (habandoned : node.abandoned = some (.read port))
      (hport : node.ports port = some k) :
      Takes task (.node node) ⟨k, value, .dropped⟩ (.node { node with abandoned := none })
  /-- The value is the last of the results. -/
  | collected {store after : Sink n} {value : Int64} (hinput : after.input = store.input)
      (hresults : after.results = store.results ++ [value]) :
      Takes task (.sink store) ⟨store.input, value, .collected⟩ (.sink after)

/-- A value is used in one way only. -/
theorem Takes.use_eq {later : Participant n} (htakes : participant.Takes task receipt after)
    (hother : participant.Takes task other later) : other.use = receipt.use := by
  -- a node that needs a value has not abandoned another read
  have hexclusive : ∀ {node waiting : Node n} {port last : Port}, node.Needs port waiting →
      node.pending = none → node.abandoned = some (.read last) → False := by
    intro node waiting port last hneeds hpending habandoned
    cases hneeds with
    | begins _ hnone _ => exact Option.some_ne_none _ (habandoned.symm.trans hnone)
    | waits hwaits => exact Option.some_ne_none _ (hwaits.symm.trans hpending)
  cases htakes with
  | read hneeds hport hpause hserved =>
      cases hother with
      | read => rfl
      | dropped hpending habandoned => exact (hexclusive hneeds hpending habandoned).elim
  | dropped hpending habandoned hport =>
      cases hother with
      | read hneeds => exact (hexclusive hneeds hpending habandoned).elim
      | dropped => rfl
  | collected hinput hresults =>
      cases hother
      rfl

end Participant

/-! ## Moves -/

/-- A node that has its source takes nothing more. -/
theorem Pause.Served.takings_eq {τ : Type} {task : τ} {fabric rest : Fabric τ n} {pause : Pause n}
    {deeds : List (Deed n)} {after : Node n} (hserved : pause.Served task fabric deeds after rest) :
    takings deeds = [] := by
  cases hserved <;> rfl

namespace Participant

variable {τ : Type} [DecidableEq τ] {task : τ} {start participant after : Participant n}
  {deeds more : List (Deed n)} {receipts : List (Receipt n)}

theorem takes_of_node {node next : Node n} (hmoves : node.Moves task deeds next) :
    takings deeds = [] ∨
      ∃ receipt, takings deeds = [receipt.taking] ∧
        (Participant.node node).Takes task receipt (.node next) := by
  cases hmoves with
  | @begins _ _ fabric rest progress hsound hidle hstep =>
      -- a step takes a value when it begins and finds one
      obtain ⟨demand, hdemand, hserved⟩ := Node.served_of_step hstep
      obtain ⟨hpending, habandoned⟩ := hsound.engagement_eq_none_iff.mp hidle
      generalize node.stepDeeds task fabric = deeds at hserved ⊢
      cases hserved with
      | paused hpaused => exact Or.inl (by rw [takings_cons, hpaused.takings_eq]; rfl)
      | blocked hport hreceive => exact Or.inl rfl
      | @received port k value waiting _ pause deeds between _ hport hreceive hpause hpaused =>
          refine Or.inr ⟨⟨k, value, .read⟩, ?_, .read (.begins hpending habandoned hdemand) ?_ hpause
            hpaused⟩
          · rw [takings_cons, takings_cons, hpaused.takings_eq]
            rfl
          · have hports : waiting.ports = node.ports := (Node.continues_demand hdemand).ports_eq
            rwa [← hports]
  | @resumes _ fabric rest progress hengaged hresume =>
      -- or when it goes on with a read, be it for an instruction or for nothing
      have hresumed := Node.resumed_of_resume hresume
      generalize node.resumeDeeds task fabric = deeds at hresumed ⊢
      cases hresumed with
      | @received _ port k value pause deeds _ _ hpending hport hfinish hpause hserved =>
          refine Or.inr ⟨⟨k, value, .read⟩, ?_, .read (.waits hpending) hport hpause hserved⟩
          rw [takings_cons, hserved.takings_eq]
          rfl
      | delivered hpending hport => exact Or.inl rfl
      | dropped hpending habandoned hport hfinish =>
          exact Or.inr ⟨_, rfl, .dropped hpending habandoned hport⟩
      | late hpending habandoned hport => exact Or.inl rfl
      | nothing hpending habandoned => exact Or.inl rfl
  | withdraws hwithdraw =>
      have hwithdrawn := Node.withdrawn_of_withdraw hwithdraw
      generalize node.withdrawDeeds = deeds at hwithdrawn ⊢
      cases hwithdrawn <;> exact Or.inl rfl
  | stalls hengaged => exact Or.inl rfl
  | rests => exact Or.inl rfl

/-- A sink has received what it holds now and did not hold before. -/
theorem Moves.sink {store : Sink n} (hmoves : (Participant.sink store).Moves task deeds after) :
    ∃ next, after = .sink next ∧ next.input = store.input ∧
      next.results.map (store.input, ·) = store.results.map (store.input, ·) ++ takings deeds := by
  have hstart : (Participant.sink store).Follows [] (.sink store) := .sink rfl (by simp)
  have hfollows := hstart.moves hmoves
  rw [List.nil_append] at hfollows
  cases hfollows with
  | @sink _ next _ hinput hresults =>
      refine ⟨next, rfl, hinput, ?_⟩
      have htaking : ∀ values : List Int64,
          (values.map (.received store.input)).filterMap Comm.taking? =
            values.map (store.input, ·) := by
        intro values
        rw [List.filterMap_map]
        exact congrFun List.filterMap_eq_map values
      have hboth := congrArg (List.filterMap Comm.taking?) hresults
      rwa [List.filterMap_append, htaking, htaking] at hboth

theorem takes_of_sink {store : Sink n} (hmoves : (Participant.sink store).Moves task deeds after) :
    takings deeds = [] ∨
      ∃ receipt, takings deeds = [receipt.taking] ∧
        (Participant.sink store).Takes task receipt after := by
  obtain ⟨next, rfl, hinput, hresults⟩ := hmoves.sink
  -- a single value is the last one of the results
  have hone : ∀ {k value}, takings deeds = [(k, value)] → takings deeds = [] ∨
      ∃ receipt, takings deeds = [receipt.taking] ∧
        (Participant.sink store).Takes task receipt (.sink next) := by
    intro k value htakings
    have hlast : next.results = store.results ++ [value] := by
      have hvalues := congrArg (List.map Prod.snd) hresults
      simpa [htakings, Function.comp_def] using hvalues
    have hk : k = store.input := by
      have hinputs := congrArg (List.map Prod.fst) hresults
      simpa [htakings, hlast] using hinputs.symm
    subst hk
    exact Or.inr ⟨⟨store.input, value, .collected⟩, htakings, .collected hinput hlast⟩
  cases hmoves with
  | @begins _ _ fabric _ _ hsound hidle hstep =>
      obtain ⟨⟨progress, last, rest⟩, hsink, hpair⟩ := bind_eq_ok.mp hstep
      obtain ⟨⟨status, between⟩, hreceive, -⟩ := bind_eq_ok.mp hsink
      have hdeeds : (Participant.sink store).stepDeeds task fabric =
          [.receive store.input status] := by
        simp only [stepDeeds, Sink.stepDeeds, hreceive, following_ok]
      rw [hdeeds] at hone ⊢
      cases status with
      | received value => exact hone rfl
      | blocked => exact Or.inl rfl
  | @resumes _ fabric _ _ hengaged hresume =>
      obtain ⟨⟨last, rest⟩, hsink, hpair⟩ := bind_eq_ok.mp hresume
      unfold Sink.resume at hsink
      by_cases hwaiting : store.waiting = true
      · rw [if_pos hwaiting] at hsink
        obtain ⟨⟨value, between⟩, hfinish, -⟩ := bind_eq_ok.mp hsink
        have hdeeds : (Participant.sink store).resumeDeeds task fabric =
            [.finishReceive store.input value] := by
          simp only [resumeDeeds, Sink.resumeDeeds, if_pos hwaiting, hfinish, following_ok]
        rw [hdeeds] at hone ⊢
        exact hone rfl
      · refine Or.inl ?_
        simp only [resumeDeeds, Sink.resumeDeeds, if_neg hwaiting, takings_nil]
  | withdraws hwithdraw => cases hwithdraw
  | stalls hengaged => exact Or.inl rfl
  | rests => exact Or.inl rfl

/-- In a move, a participant takes one value at most, and uses it in one way. -/
theorem Moves.takes (hmoves : participant.Moves task deeds after) :
    takings deeds = [] ∨
      ∃ receipt, takings deeds = [receipt.taking] ∧ participant.Takes task receipt after ∧
        ∀ other, participant.Takes task other after → other.use = receipt.use := by
  suffices htakes : takings deeds = [] ∨
      ∃ receipt, takings deeds = [receipt.taking] ∧ participant.Takes task receipt after by
    rcases htakes with hnone | ⟨receipt, htakings, htakes⟩
    · exact Or.inl hnone
    · exact Or.inr ⟨receipt, htakings, htakes, fun other hother => htakes.use_eq hother⟩
  cases participant with
  | node processor =>
      obtain ⟨next, rfl, hnode⟩ := hmoves.node
      exact takes_of_node hnode
  | source feed =>
      -- a source only sends
      have hstart : (Participant.source feed).Follows [] (.source feed) := .source rfl rfl
      have hfollows := hstart.moves hmoves
      rw [List.nil_append] at hfollows
      cases hfollows with
      | source houtput hunsent => exact Or.inl (takings_eq_nil_of_sent hunsent)
  | sink store => exact takes_of_sink hmoves

/-! ## Receipts for everything that is taken -/

/-- The participant has done the deeds since it was `start`, without getting a new
program, and there is a receipt for each value that it has taken. -/
inductive Audited (task : τ) (start : Participant n) :
    List (Deed n) → List (Receipt n) → Participant n → Prop where
  | start : Audited task start [] [] start
  | passes {participant after : Participant n} {deeds more : List (Deed n)}
      {receipts : List (Receipt n)} (haudited : Audited task start deeds receipts participant)
      (hmoves : participant.Moves task more after) (hnone : takings more = []) :
      Audited task start (deeds ++ more) receipts after
  /-- A single value is taken, and it is used in a single way. -/
  | takes {participant after : Participant n} {deeds more : List (Deed n)}
      {receipts : List (Receipt n)} {receipt : Receipt n}
      (haudited : Audited task start deeds receipts participant)
      (hmoves : participant.Moves task more after) (hone : takings more = [receipt.taking])
      (htakes : participant.Takes task receipt after)
      (honly : ∀ other, participant.Takes task other after → other.use = receipt.use) :
      Audited task start (deeds ++ more) (receipts ++ [receipt]) after

theorem Audited.moves (haudited : start.Audited task deeds receipts participant)
    (hmoves : participant.Moves task more after) :
    ∃ later, start.Audited task (deeds ++ more) later after := by
  rcases hmoves.takes with hnone | ⟨receipt, hone, htakes, honly⟩
  · exact ⟨receipts, haudited.passes hmoves hnone⟩
  · exact ⟨receipts ++ [receipt], haudited.takes hmoves hone htakes honly⟩

/-- The receipts are for what was taken, in order. -/
theorem Audited.takings_eq (haudited : start.Audited task deeds receipts participant) :
    takings deeds = receipts.map Receipt.taking := by
  induction haudited with
  | start => rfl
  | passes haudited hmoves hnone ih => rw [takings_append, hnone, ih, List.append_nil]
  | takes haudited hmoves hone htakes honly ih =>
      rw [takings_append, hone, ih, List.map_append, List.map_singleton]

/-- The receipts of a sink are for its results, one for each. -/
theorem Audited.sink {store : Sink n}
    (haudited : (Participant.sink store).Audited task deeds receipts participant) :
    ∃ last, participant = .sink last ∧ last.input = store.input ∧
      last.results.map (⟨store.input, ·, .collected⟩) =
        store.results.map (⟨store.input, ·, .collected⟩) ++ receipts := by
  induction haudited with
  | start => exact ⟨store, rfl, rfl, (List.append_nil _).symm⟩
  | passes haudited hmoves hnone ih =>
      obtain ⟨last, rfl, hinput, hreceipts⟩ := ih
      obtain ⟨next, rfl, hsame, hresults⟩ := hmoves.sink
      rw [hnone, List.append_nil] at hresults
      -- no receipt, no result
      have hvalues : next.results = last.results := by
        simpa [Function.comp_def] using congrArg (List.map Prod.snd) hresults
      exact ⟨next, rfl, hsame.trans hinput, by rw [hvalues, hreceipts]⟩
  | takes haudited hmoves hone htakes honly ih =>
      obtain ⟨last, rfl, hinput, hreceipts⟩ := ih
      cases htakes with
      | @collected _ next value hsame hresults =>
          refine ⟨next, rfl, hsame.trans hinput, ?_⟩
          rw [hresults, List.map_append, hreceipts, List.append_assoc, hinput]
          rfl

end Participant

end NodeGrid
