import NodeGrid.Proofs.Bench.Confluence
import NodeGrid.Proofs.Bench.Interpretation
import NodeGrid.Proofs.Peephole.Interpretation
import NodeGrid.Proofs.Peephole.Uses

/-!
# Benches with optimised programs

A wiring whose nodes run optimised programs uses no end of a channel that the original
does not (`Wiring.Optimizes.isExclusive`).  If every channel of the original has one
reader and one writer, then a bench of the one and a bench of the other collect the same
values, up to how far they have come (`Wiring.Optimizes.collectsAlike`).

The argument is that of two benches with different schedules: nodes with the same number
do not differ first in anything but a value that they receive, here because their programs
perform the same (`Participant.Optimizes.agree`).
-/

namespace NodeGrid

open List (Forall₂)

variable {n : ℕ}

/-! ## Participants -/

/-- A new node and one like it that runs the optimised program. -/
structure Node.Optimizes (node optimized : Node n) : Prop where
  isFresh : node.IsFresh
  isFresh_optimized : optimized.IsFresh
  ports_eq : optimized.ports = node.ports
  program_eq : optimized.program = node.program.optimize

/-- Only nodes run programs. -/
inductive Participant.Optimizes : Participant n → Participant n → Prop where
  | node {node optimized : Node n} (hoptimizes : node.Optimizes optimized) :
      Optimizes (.node node) (.node optimized)
  | same (participant : Participant n) : Optimizes participant participant

theorem Node.IsFresh.holds {node : Node n} (hfresh : node.IsFresh) : node.Holds (.start []) := by
  rcases hfresh with ⟨name, ports, rfl | ⟨source, rfl⟩⟩ <;> exact ⟨rfl, rfl, rfl⟩

theorem Node.IsFresh.isWired {node : Node n} (hfresh : node.IsFresh) :
    node.IsWired fun _ => True :=
  (hfresh.atRest fun _ _ _ _ _ _ => trivial).1.wired

namespace Node.Optimizes

variable {node optimized : Node n} {k : Fin n}

theorem reads (hoptimizes : node.Optimizes optimized) (hreads : optimized.reads k) :
    node.reads k := by
  obtain ⟨instruction, hmem, hread⟩ := List.any_eq_true.mp hreads
  obtain ⟨port, hport, hk⟩ := Option.bind_eq_some_iff.mp (beq_iff_eq.mp hread)
  rw [hoptimizes.program_eq] at hmem
  obtain ⟨original, horiginal, hsame⟩ :=
    (Program.within_optimize _).exists_read instruction hmem port hport
  refine List.any_eq_true.mpr ⟨original, horiginal, ?_⟩
  simpa [hsame, ← hoptimizes.ports_eq] using hk

theorem writes (hoptimizes : node.Optimizes optimized) (hwrites : optimized.writes k) :
    node.writes k := by
  obtain ⟨instruction, hmem, hwritten⟩ := List.any_eq_true.mp hwrites
  obtain ⟨port, hport, hk⟩ := Option.bind_eq_some_iff.mp (beq_iff_eq.mp hwritten)
  rw [hoptimizes.program_eq] at hmem
  obtain ⟨original, horiginal, hsame⟩ :=
    (Program.within_optimize _).exists_written instruction hmem port hport
  refine List.any_eq_true.mpr ⟨original, horiginal, ?_⟩
  simpa [hsame, ← hoptimizes.ports_eq] using hk

end Node.Optimizes

namespace Participant.Optimizes

variable {participant optimized now later : Participant n} {k : Fin n} {deeds more : List (Deed n)}

theorem reads (hoptimizes : participant.Optimizes optimized) (hreads : optimized.reads k) :
    participant.reads k := by
  cases hoptimizes with
  | node hnode => exact hnode.reads hreads
  | same => exact hreads

theorem writes (hoptimizes : participant.Optimizes optimized) (hwrites : optimized.writes k) :
    participant.writes k := by
  cases hoptimizes with
  | node hnode => exact hnode.writes hwrites
  | same => exact hwrites

theorem sink?_eq (hoptimizes : participant.Optimizes optimized) :
    participant.sink? = optimized.sink? := by
  cases hoptimizes <;> rfl

/-- A participant with the optimised program does not differ first in anything but a
value that it receives. -/
theorem agree (hoptimizes : participant.Optimizes optimized)
    (hfollows : participant.Follows deeds now) (hother : optimized.Follows more later) :
    Agree (comms deeds) (comms more) := by
  cases hoptimizes with
  | same => exact hfollows.agree hother
  | node hnode =>
      cases hfollows with
      | node hruns =>
          cases hother with
          | node hotherRuns =>
              obtain ⟨demand, hleads, -⟩ := hruns.leads
              obtain ⟨last, hlast, -⟩ := hotherRuns.leads
              exact hleads.agree_optimize hlast hnode.ports_eq hnode.program_eq
                hnode.isFresh.interprets hnode.isFresh_optimized.holds
                hnode.isFresh_optimized.isWired

end Participant.Optimizes

/-! ## Wirings -/

/-- The same wiring with optimised programs, and with channels of any capacity. -/
structure Wiring.Optimizes (wiring optimized : Wiring n) : Prop where
  nodes : Forall₂ Node.Optimizes wiring.nodes optimized.nodes
  inputs_eq : optimized.inputs = wiring.inputs
  outputs_eq : optimized.outputs = wiring.outputs

/-- What occurs in the second list occurs at the same place in the first one. -/
theorem countP_le_of_forall₂ {α β : Type} {related : α → β → Prop} {first : List α}
    {second : List β} {p : α → Bool} {q : β → Bool} (hrelated : Forall₂ related first second)
    (himp : ∀ a b, related a b → q b → p a) : second.countP q ≤ first.countP p := by
  induction hrelated with
  | nil => exact Nat.le_refl _
  | @cons a b rest others hhead _ ih =>
      rw [List.countP_cons, List.countP_cons]
      have hone : (if q b then 1 else 0) ≤ if p a then 1 else 0 := by
        by_cases hq : q b
        · rw [if_pos hq, if_pos (himp a b hhead hq)]
        · rw [if_neg hq]
          exact Nat.zero_le _
      omega

namespace Wiring.Optimizes

variable {wiring optimized : Wiring n} {suite : Suite}

theorem participants (hoptimizes : wiring.Optimizes optimized) (suite : Suite) :
    Forall₂ Participant.Optimizes (wiring.participants suite) (optimized.participants suite) := by
  have hsame : ∀ list : List (Participant n), Forall₂ Participant.Optimizes list list :=
    fun list => List.forall₂_same.mpr fun participant _ => .same participant
  unfold Wiring.participants
  rw [hoptimizes.inputs_eq, hoptimizes.outputs_eq]
  refine List.rel_append (List.rel_append ?_ (hsame _)) (hsame _)
  rw [List.forall₂_map_left_iff, List.forall₂_map_right_iff]
  exact hoptimizes.nodes.imp fun _ _ => .node

theorem isFresh (hoptimizes : wiring.Optimizes optimized) :
    ∀ node ∈ wiring.nodes, node.IsFresh := by
  intro node hmem
  obtain ⟨index, hindex, rfl⟩ := List.mem_iff_getElem.mp hmem
  exact (hoptimizes.nodes.get hindex (hoptimizes.nodes.length_eq ▸ hindex)).isFresh

theorem isFresh_optimized (hoptimizes : wiring.Optimizes optimized) :
    ∀ node ∈ optimized.nodes, node.IsFresh := by
  intro node hmem
  obtain ⟨index, hindex, rfl⟩ := List.mem_iff_getElem.mp hmem
  exact (hoptimizes.nodes.get (hoptimizes.nodes.length_eq ▸ hindex) hindex).isFresh_optimized

theorem size_eq (hoptimizes : wiring.Optimizes optimized) : wiring.size = optimized.size := by
  rw [Wiring.size, Wiring.size, hoptimizes.nodes.length_eq, hoptimizes.inputs_eq,
    hoptimizes.outputs_eq]

theorem isExclusive (hoptimizes : wiring.Optimizes optimized)
    (hexclusive : wiring.IsExclusive suite) : optimized.IsExclusive suite where
  countP_reads_le k :=
    (countP_le_of_forall₂ (hoptimizes.participants suite) fun _ _ hpair => hpair.reads).trans
      (hexclusive.countP_reads_le k)
  countP_writes_le k :=
    (countP_le_of_forall₂ (hoptimizes.participants suite) fun _ _ hpair => hpair.writes).trans
      (hexclusive.countP_writes_le k)

/-- Members with the same number run the same program, optimised or not. -/
theorem member (hoptimizes : wiring.Optimizes optimized) (suite : Suite) (early late : Discipline)
    {p : Fin wiring.size} {q : Fin optimized.size} (hpq : p.val = q.val) :
    ((Bench.ofWiring wiring suite early).network.member p).Optimizes
      ((Bench.ofWiring optimized suite late).network.member q) := by
  have hfirst := Bench.member_ofWiring wiring suite early p
  have hsecond := Bench.member_ofWiring optimized suite late q
  obtain ⟨hp, hfirst⟩ := List.getElem?_eq_some_iff.mp hfirst
  obtain ⟨hq, hsecond⟩ := List.getElem?_eq_some_iff.mp hsecond
  rw [← hfirst, ← hsecond]
  have hget := (hoptimizes.participants suite).get hp (hpq ▸ hq)
  simpa [hpq] using hget

end Wiring.Optimizes

/-! ## What benches collect -/

/-- At the same port, no value of one is different from the value of the other at the same
place. -/
structure CollectsAlike (early late : ℕ × List Int64) : Prop where
  port_eq : early.1 = late.1
  comparable : PrefixComparable early.2 late.2
  take_eq : ∀ count, count ≤ early.2.length → count ≤ late.2.length →
    early.2.take count = late.2.take count

theorem PrefixComparable.take_eq {α : Type} {first second : List α}
    (hcomparable : PrefixComparable first second) {count : ℕ} (hfirst : count ≤ first.length)
    (hsecond : count ≤ second.length) : first.take count = second.take count := by
  rcases hcomparable with ⟨rest, rfl⟩ | ⟨rest, rfl⟩
  · rw [List.take_append_of_le_length hfirst]
  · rw [List.take_append_of_le_length hsecond]

namespace Bench

/-- Sinks that hold comparable values are outputs that collect alike. -/
theorem collectsAlike_of_sinks {m l : ℕ} {bench : Bench m n} {other : Bench l n}
    (hsinks : Forall₂ (fun first second => first.input = second.input ∧
      PrefixComparable first.results second.results) bench.sinks other.sinks) :
    Forall₂ CollectsAlike bench.evaluation.outputs other.evaluation.outputs := by
  refine forall₂_mapIdx hsinks fun port first second hpair => ?_
  exact ⟨rfl, hpair.2, fun _ => hpair.2.take_eq⟩

theorem map_fst_outputs {m : ℕ} (bench : Bench m n) :
    bench.evaluation.outputs.map Prod.fst = List.range bench.sinks.length := by
  exact List.ext_getElem (by simp [evaluation]) (by simp [evaluation])

end Bench

/-- With optimised programs, a bench collects the same values, up to how far it has
come. -/
theorem Wiring.Optimizes.collectsAlike {wiring optimized : Wiring n}
    (hoptimizes : wiring.Optimizes optimized) {suite : Suite}
    (hexclusive : wiring.IsExclusive suite)
    (hroom : ∀ k, wiring.capacities.get k + 2 ≤ 2 ^ 63 - 1)
    (hroomOptimized : ∀ k, optimized.capacities.get k + 2 ≤ 2 ^ 63 - 1)
    (early late : Discipline) {operations : List (Bench.Operation wiring.size)}
    {others : List (Bench.Operation optimized.size)}
    (hkeep : ∀ task text, .load task text ∉ operations)
    (hkeepOthers : ∀ task text, .load task text ∉ others) :
    ∃ bench other,
      (Bench.ofWiring wiring suite early).performAll operations = .ok bench ∧
      (Bench.ofWiring optimized suite late).performAll others = .ok other ∧
      bench.evaluation.outputs.map Prod.fst = List.range wiring.outputs.length ∧
      Forall₂ CollectsAlike bench.evaluation.outputs other.evaluation.outputs := by
  obtain ⟨bench, hperform, hfollows, hlog⟩ :=
    Bench.orderly_of_performAll hoptimizes.isFresh hexclusive hroom early hkeep
  obtain ⟨other, hperformOther, hfollowsOther, hlogOther⟩ :=
    Bench.orderly_of_performAll hoptimizes.isFresh_optimized (hoptimizes.isExclusive hexclusive)
      hroomOptimized late hkeepOthers
  -- what the optimised writer of a channel writes, the writer with the same number does
  have hwriters : ∀ p q k, ((Bench.ofWiring wiring suite early).network.member p).writes k →
      ((Bench.ofWiring optimized suite late).network.member q).writes k → p.val = q.val := by
    intro p q k hp hq
    obtain ⟨r, hr⟩ : ∃ r : Fin wiring.size, r.val = q.val :=
      ⟨q.cast hoptimizes.size_eq.symm, rfl⟩
    have hwrites := (hoptimizes.member suite early late hr).writes hq
    rw [← hr, hlog.writer_eq hp hwrites]
  have hcomparable := hlog.comparable hlogOther hwriters fun p q hpq =>
    (hoptimizes.member suite early late hpq).agree (hfollows p) (hfollowsOther q)
  refine ⟨bench, other, hperform, hperformOther, ?_, Bench.collectsAlike_of_sinks ?_⟩
  · have hinputs : Forall₂ (fun store last => store.input = last.input)
        (Bench.ofWiring wiring suite early).sinks bench.sinks :=
      Bench.forall₂_sinks rfl fun p q hpq => by
        obtain rfl := Fin.ext hpq
        exact (hfollows p).rel_input
    rw [Bench.map_fst_outputs, ← hinputs.length_eq, Bench.sinks_ofWiring, List.length_map]
  · refine Bench.forall₂_sinks hoptimizes.size_eq fun p q hpq => ?_
    exact (hfollows p).rel_results (hfollowsOther q)
      (hoptimizes.member suite early late hpq).sink?_eq fun _ => hcomparable p q hpq

end NodeGrid
