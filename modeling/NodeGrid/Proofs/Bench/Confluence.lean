import NodeGrid.Proofs.Bench.Trace
import NodeGrid.Proofs.Network.Confluence

/-!
# Results that do not depend on the schedule

Wired nodes in which every channel has one reader and one writer (`Wiring.IsExclusive`)
make the same of a suite whatever the discipline, the capacities of the channels, the
order of the nodes and the operations performed on the bench
(`comparable_of_performAll`): of the values that two benches have collected at a port,
those of one are the first of those of the other.

Every participant of a bench follows its own program (`Participant.Follows`), and the
traces of the two benches are logs of the same participants, so that this is a case of
`Exclusive.comparable`.
-/

namespace NodeGrid

variable {n : ℕ}

/-- Every channel is read by at most one participant and written by at most one. -/
structure Wiring.IsExclusive (wiring : Wiring n) (suite : Suite) : Prop where
  countP_reads_le : ∀ k, (wiring.participants suite).countP (·.reads k) ≤ 1
  countP_writes_le : ∀ k, (wiring.participants suite).countP (·.writes k) ≤ 1

/-- The same nodes in some order, between the same ports, which are fed with the same
values. -/
structure Wiring.Alike (first : Wiring n) (suite : Suite) (second : Wiring n) (other : Suite) :
    Prop where
  nodes_perm : first.nodes.Perm second.nodes
  inputs_eq : first.inputs = second.inputs
  outputs_eq : first.outputs = second.outputs
  suite_eq : suite.inputs = other.inputs

namespace Wiring.Alike

variable {first second : Wiring n} {suite other : Suite}

theorem participants_perm (halike : first.Alike suite second other) :
    (first.participants suite).Perm (second.participants other) := by
  simp only [participants, halike.inputs_eq, halike.outputs_eq, halike.suite_eq]
  exact ((halike.nodes_perm.map _).append_right _).append_right _

theorem size_eq (halike : first.Alike suite second other) : first.size = second.size := by
  rw [← first.length_participants suite, ← second.length_participants other]
  exact halike.participants_perm.length_eq

theorem isExclusive (halike : first.Alike suite second other) (hexclusive : first.IsExclusive suite) :
    second.IsExclusive other where
  countP_reads_le k := halike.participants_perm.countP_eq _ ▸ hexclusive.countP_reads_le k
  countP_writes_le k := halike.participants_perm.countP_eq _ ▸ hexclusive.countP_writes_le k

/-- The sinks have the same numbers. -/
theorem map_sink?_eq (halike : first.Alike suite second other) :
    (first.participants suite).map Participant.sink? =
      (second.participants other).map Participant.sink? := by
  have hnodes : first.nodes.map (Participant.sink? ∘ .node) =
      second.nodes.map (Participant.sink? ∘ .node) := by
    have hconst : (Participant.sink? ∘ .node : Node n → Option (Sink n)) = Function.const _ none := rfl
    rw [hconst, List.map_const, List.map_const, halike.nodes_perm.length_eq]
  simp only [participants, List.map_append, List.map_map, hnodes, halike.inputs_eq,
    halike.outputs_eq, halike.suite_eq]

end Wiring.Alike

/-- Only one place of a list can hold what occurs at most once. -/
theorem eq_of_countP_le_one {α : Type} {list : List α} {p : α → Bool} {i j : ℕ} {a b : α}
    (hcount : list.countP p ≤ 1) (hi : list[i]? = some a) (hj : list[j]? = some b) (ha : p a)
    (hb : p b) : i = j := by
  -- otherwise it would occur before the later place and from there on
  have hlt : ∀ {i j : ℕ} {a b : α}, list[i]? = some a → list[j]? = some b → p a → p b → ¬ i < j := by
    intro i j a b hi hj ha hb hij
    have hbefore : 0 < (list.take j).countP p :=
      List.countP_pos_iff.mpr ⟨a, List.mem_of_getElem? (by rwa [List.getElem?_take_of_lt hij]), ha⟩
    have hfrom : 0 < (list.drop j).countP p :=
      List.countP_pos_iff.mpr
        ⟨b, List.mem_of_getElem? (i := 0) (by rwa [List.getElem?_drop, Nat.add_zero]), hb⟩
    rw [← List.take_append_drop j list, List.countP_append] at hcount
    omega
  have hij := hlt hi hj ha hb
  have hji := hlt hj hi hb ha
  omega

/-- What only one place of a list can hold occurs at most once. -/
theorem countP_le_one {α : Type} {list : List α} {p : α → Bool}
    (hplace : ∀ (i j : ℕ) a b, list[i]? = some a → list[j]? = some b → p a → p b → i = j) :
    list.countP p ≤ 1 := by
  induction list with
  | nil => exact Nat.zero_le 1
  | cons first rest ih =>
      by_cases hfirst : p first = true
      · have hrest : rest.countP p = 0 := by
          refine List.countP_eq_zero.mpr fun a hmem ha => ?_
          obtain ⟨j, hj⟩ := List.mem_iff_getElem?.mp hmem
          exact absurd (hplace 0 (j + 1) first a rfl hj hfirst ha) (Nat.succ_ne_zero j).symm
        rw [List.countP_cons_of_pos hfirst, hrest]
      · rw [List.countP_cons_of_neg hfirst]
        exact ih fun i j a b hi hj ha hb => Nat.succ.inj (hplace (i + 1) (j + 1) a b hi hj ha hb)

namespace Bench

variable {wiring : Wiring n} {suite : Suite} {discipline : Discipline}
  {task other : Fin wiring.size} {k : Fin n}

/-- Only one member of a new bench can be what occurs at most once among the
participants. -/
theorem task_eq_of_countP_le_one {p : Participant n → Bool}
    (hcount : (wiring.participants suite).countP p ≤ 1)
    (htask : p ((ofWiring wiring suite discipline).network.member task))
    (hother : p ((ofWiring wiring suite discipline).network.member other)) : task = other :=
  Fin.ext (eq_of_countP_le_one hcount (member_ofWiring wiring suite discipline task)
    (member_ofWiring wiring suite discipline other) htask hother)

/-- The members of a new bench that read or write the channel. -/
def users (wiring : Wiring n) (suite : Suite) (discipline : Discipline) (k : Fin n) :
    Finset (Fin wiring.size) :=
  (Finset.univ.filter fun task => (ofWiring wiring suite discipline).network.member task |>.reads k) ∪
    Finset.univ.filter fun task => (ofWiring wiring suite discipline).network.member task |>.writes k

theorem card_users_le (hexclusive : wiring.IsExclusive suite) :
    (users wiring suite discipline k).card ≤ 2 := by
  refine (Finset.card_union_le _ _).trans (show _ ≤ 1 + 1 from Nat.add_le_add ?_ ?_)
  · refine Finset.card_le_one.mpr fun task htask other hother => ?_
    exact task_eq_of_countP_le_one (hexclusive.countP_reads_le k) (Finset.mem_filter.mp htask).2
      (Finset.mem_filter.mp hother).2
  · refine Finset.card_le_one.mpr fun task htask other hother => ?_
    exact task_eq_of_countP_le_one (hexclusive.countP_writes_le k) (Finset.mem_filter.mp htask).2
      (Finset.mem_filter.mp hother).2

theorem mem_users_of_uses (huses : ((ofWiring wiring suite discipline).network.member task).Uses k) :
    task ∈ users wiring suite discipline k := by
  rcases Participant.reads_or_writes_of_uses huses with hreads | hwrites
  · exact Finset.mem_union_left _ (Finset.mem_filter.mpr ⟨Finset.mem_univ task, hreads⟩)
  · exact Finset.mem_union_right _ (Finset.mem_filter.mpr ⟨Finset.mem_univ task, hwrites⟩)

theorem sound_of_isExclusive (hfresh : ∀ node ∈ wiring.nodes, node.IsFresh)
    (hexclusive : wiring.IsExclusive suite) (hroom : ∀ k, wiring.capacities.get k + 2 ≤ 2 ^ 63 - 1)
    (discipline : Discipline) :
    (ofWiring wiring suite discipline).network.Sound (users wiring suite discipline) :=
  sound_ofWiring_of_uses hfresh (fun _ _ => mem_users_of_uses) fun k =>
    (Nat.add_le_add_left (card_users_le hexclusive) _).trans (hroom k)

/-- The channels are empty to begin with, so that what was put into one of them has been
taken out of it or is in its buffer. -/
theorem sentOn_of_replay {log : Log (Fin wiring.size) n}
    {channels : Vector (Channel (Fin wiring.size)) n}
    (hreplay : replay (ofWiring wiring suite discipline).network.fabric.channels log = some channels)
    (k : Fin n) : sentOn k log = receivedOn k log ++ (channels.get k).buffer := by
  have hbuffer := buffer_replay (k := k) hreplay
  have hempty : ((ofWiring wiring suite discipline).network.fabric.channels.get k).buffer = [] :=
    congrArg Channel.buffer (channel_ofWiring wiring suite discipline k)
  rwa [hempty, List.nil_append] at hbuffer

/-- Nothing is taken out of a channel before it has been put into it. -/
theorem receivedOn_prefix_of_replay {before log : Log (Fin wiring.size) n}
    {channels : Vector (Channel (Fin wiring.size)) n}
    (hreplay : replay (ofWiring wiring suite discipline).network.fabric.channels log = some channels)
    (hbegins : before <+: log) (k : Fin n) : receivedOn k before <+: sentOn k before := by
  obtain ⟨later, rfl⟩ := hbegins
  rw [replay_append] at hreplay
  obtain ⟨between, hbetween, -⟩ := Option.bind_eq_some_iff.mp hreplay
  exact ⟨_, (sentOn_of_replay hbetween k).symm⟩

/-- The log is a trace of a bench on which every channel has one reader and one writer, and
all members follow their programs. -/
structure Orderly (wiring : Wiring n) (suite : Suite) (discipline : Discipline)
    (log : Log (Fin wiring.size) n) (bench : Bench wiring.size n) : Prop where
  follows : ∀ task, ((ofWiring wiring suite discipline).network.member task).Follows
    (deedsOf task log) (bench.network.member task)
  exclusive : Exclusive
    (fun task => ((ofWiring wiring suite discipline).network.member task).reads)
    (fun task => ((ofWiring wiring suite discipline).network.member task).writes) log

/-- Whatever is done with a bench of nodes that share no end of a channel is orderly. -/
theorem orderly_of_performAll (hfresh : ∀ node ∈ wiring.nodes, node.IsFresh)
    (hexclusive : wiring.IsExclusive suite) (hroom : ∀ k, wiring.capacities.get k + 2 ≤ 2 ^ 63 - 1)
    (discipline : Discipline) {operations : List (Operation wiring.size)}
    (hkeep : ∀ task text, .load task text ∉ operations) :
    ∃ last, (ofWiring wiring suite discipline).performAll operations = .ok last ∧
      Orderly wiring suite discipline
        ((ofWiring wiring suite discipline).performAllTrace operations) last := by
  have hsound := sound_of_isExclusive hfresh hexclusive hroom discipline
  -- no program is loaded
  have hreach : ∀ task : Fin wiring.size, False →
      ∀ k, ((ofWiring wiring suite discipline).network.member task).Reaches k →
        task ∈ users wiring suite discipline k := fun _ hload => hload.elim
  obtain ⟨last, hlast, hpath⟩ :=
    exists_path_of_sound hsound (isQuiet_ofWiring wiring suite discipline) hkeep hreach
  -- every participant follows its own program, whoever comes when
  have hfollows : ∀ task, ((ofWiring wiring suite discipline).network.member task).Follows
      (deedsOf task ((ofWiring wiring suite discipline).performAllTrace operations))
      (last.network.member task) := by
    intro task
    have hstart := (hsound.members task).follows (engaged_ofWiring hfresh suite discipline task)
    exact hpath.keeps_member Participant.Follows.moves hsound hreach not_false hstart
  refine ⟨last, hlast, hfollows, ?_, ?_, ?_, ?_⟩
  · intro task deed hmem comm hcomm
    exact (hfollows task).isUse comm (mem_comms_deedsOf.mpr ⟨deed, hmem, hcomm⟩)
  · exact task_eq_of_countP_le_one (hexclusive.countP_reads_le _)
  · exact task_eq_of_countP_le_one (hexclusive.countP_writes_le _)
  · exact fun before => receivedOn_prefix_of_replay (hpath.replay hsound hreach)

namespace Orderly

variable {log : Log (Fin wiring.size) n} {bench : Bench wiring.size n}
  (horderly : Orderly wiring suite discipline log bench)

include horderly

theorem receivedOn_prefix_sentOn (k : Fin n) : receivedOn k log <+: sentOn k log :=
  horderly.exclusive.causal log List.prefix_rfl k

/-- Nothing is put into a channel that nobody writes. -/
theorem sentOn_eq_nil (hnodes : ∀ node ∈ wiring.nodes, ¬ node.writes k)
    (hinputs : k ∉ wiring.inputs) : sentOn k log = [] := by
  by_contra hsent
  obtain ⟨value, hmem⟩ := List.exists_mem_of_ne_nil _ hsent
  obtain ⟨task, hwrites⟩ := horderly.exclusive.exists_writer hmem
  rcases participants_cases (member_ofWiring wiring suite discipline task) with
    ⟨node, hnode, hmember⟩ | ⟨port, j, -, hport, hmember⟩ | ⟨port, j, -, -, hmember⟩
  · rw [hmember] at hwrites
    exact hnodes node (List.mem_of_getElem? hnode) hwrites
  · rw [hmember] at hwrites
    obtain rfl : j = k := eq_of_beq hwrites
    exact hinputs (List.mem_of_getElem? hport)
  · rw [hmember] at hwrites
    exact Bool.false_ne_true hwrites

/-- The source of a channel has put the first of its values into it. -/
theorem exists_source {values : List Int64}
    (hsource : (ofWiring wiring suite discipline).network.member task =
      .source (.ofValues values k)) :
    ∃ source, bench.network.member task = .source source ∧ source.output = k ∧
      sentOn k log ++ source.unsent = values := by
  have hfollows := horderly.follows task
  rw [hsource] at hfollows
  refine horderly.exclusive.exists_source ?_ hfollows
  rw [hsource]
  exact beq_self_eq_true k

/-- The sink of a channel has collected what was taken out of it. -/
theorem exists_sink
    (hsink : (ofWiring wiring suite discipline).network.member task = .sink (.ofChannel k)) :
    ∃ sink, bench.network.member task = .sink sink ∧ sink.input = k ∧
      sink.results = receivedOn k log := by
  have hfollows := horderly.follows task
  rw [hsink] at hfollows
  refine horderly.exclusive.exists_sink ?_ hfollows
  rw [hsink]
  exact beq_self_eq_true k

end Orderly

/-! ## Sinks -/

/-- What is picked from two benches is related if it is for members with the same numbers. -/
theorem forall₂_filterMap_members {m l : ℕ} (hsize : m = l) {bench : Bench m n} {other : Bench l n}
    {α β : Type} {pick : Participant n → Option α} {pickOther : Participant n → Option β}
    {related : α → β → Prop}
    (hrelated : ∀ p q, p.val = q.val →
      Option.Rel related (pick (bench.network.member p)) (pickOther (other.network.member q))) :
    List.Forall₂ related (bench.network.members.toList.filterMap pick)
      (other.network.members.toList.filterMap pickOther) := by
  subst hsize
  refine List.rel_filterMap (R := fun a b => Option.Rel related (pick a) (pickOther b))
    (fun _ _ h => h) ?_
  refine List.forall₂_iff_get.mpr ⟨by simp, fun i hi hother => ?_⟩
  have hm : i < m := by simpa using hi
  simpa [Network.member_eq_getElem] using hrelated ⟨i, hm⟩ ⟨i, hm⟩ rfl

/-- Lists of related entries remain related when they are numbered. -/
theorem forall₂_mapIdx {α β γ δ : Type} {related : α → β → Prop} {shown : ℕ × γ → ℕ × δ → Prop}
    {list : List α} {others : List β} {f : α → γ} {g : β → δ}
    (hrelated : List.Forall₂ related list others)
    (hshown : ∀ index a b, related a b → shown (index, f a) (index, g b)) :
    List.Forall₂ shown (list.mapIdx fun index a => (index, f a))
      (others.mapIdx fun index b => (index, g b)) := by
  refine List.forall₂_iff_get.mpr ⟨by simpa using hrelated.length_eq, fun index hindex hother => ?_⟩
  simp only [List.get_eq_getElem, List.getElem_mapIdx]
  exact hshown index _ _ (hrelated.get (by simpa using hindex) (by simpa using hother))

/-- The sinks of two benches are related if the members with the same numbers are. -/
theorem forall₂_sinks {m l : ℕ} (hsize : m = l) {bench : Bench m n} {other : Bench l n}
    {related : Sink n → Sink n → Prop}
    (hrelated : ∀ p q, p.val = q.val →
      Option.Rel related (bench.network.member p).sink? (other.network.member q).sink?) :
    List.Forall₂ related bench.sinks other.sinks :=
  forall₂_filterMap_members hsize hrelated

theorem sinks_ofWiring :
    (ofWiring wiring suite discipline).sinks = wiring.outputs.map Sink.ofChannel := by
  have hmembers : (ofWiring wiring suite discipline).network.members.toList =
      wiring.participants suite := rfl
  have hnodes : (wiring.nodes.map .node).filterMap Participant.sink? = [] := by simp [Participant.sink?]
  have hsources : (wiring.inputs.mapIdx fun port k =>
      .source (.ofValues (suite.inputs.values port) k)).filterMap Participant.sink? = [] := by
    refine List.filterMap_eq_nil_iff.mpr fun participant hmem => ?_
    obtain ⟨port, hport, rfl⟩ := List.mem_mapIdx.mp hmem
    rfl
  rw [sinks, hmembers, Wiring.participants, List.filterMap_append, List.filterMap_append, hnodes,
    hsources, List.filterMap_map]
  exact congrFun List.filterMap_eq_map wiring.outputs

/-! ## Two benches -/

section Two

variable {first second : Wiring n} {suite other : Suite} {early late : Discipline}
  {p : Fin first.size} {q : Fin second.size}

/-- The writer of a channel is the same participant, at whatever place in the list. -/
theorem member_eq_of_writes (hexclusive : first.IsExclusive suite)
    (halike : first.Alike suite second other) {k : Fin n}
    (hp : ((ofWiring first suite early).network.member p).writes k)
    (hq : ((ofWiring second other late).network.member q).writes k) :
    (ofWiring first suite early).network.member p = (ofWiring second other late).network.member q := by
  have hfirst := member_ofWiring first suite early p
  have hmem := halike.participants_perm.mem_iff.mpr
    (List.mem_of_getElem? (member_ofWiring second other late q))
  obtain ⟨i, hi⟩ := List.mem_iff_getElem?.mp hmem
  obtain rfl : p.val = i :=
    eq_of_countP_le_one (hexclusive.countP_writes_le k) hfirst hi hp hq
  exact Option.some.inj (hfirst.symm.trans hi)

theorem sink?_member_eq (halike : first.Alike suite second other) (hpq : p.val = q.val) :
    ((ofWiring first suite early).network.member p).sink? =
      ((ofWiring second other late).network.member q).sink? := by
  have hlater := member_ofWiring second other late q
  rw [← hpq] at hlater
  have hmap := congrArg (fun sinks => sinks[p.val]?) halike.map_sink?_eq
  simp only [List.getElem?_map, member_ofWiring first suite early p, hlater, Option.map_some,
    Option.some.injEq] at hmap
  exact hmap

end Two

/-- Two benches collect the same values, up to how far they have come, whatever their
schedules are. -/
theorem comparable_of_performAll {first second : Wiring n} {suite other : Suite}
    (hfresh : ∀ node ∈ first.nodes, node.IsFresh) (hexclusive : first.IsExclusive suite)
    (halike : first.Alike suite second other)
    (hroomFirst : ∀ k, first.capacities.get k + 2 ≤ 2 ^ 63 - 1)
    (hroomSecond : ∀ k, second.capacities.get k + 2 ≤ 2 ^ 63 - 1)
    (disciplineFirst disciplineSecond : Discipline)
    {operationsFirst : List (Operation first.size)} {operationsSecond : List (Operation second.size)}
    (hkeepFirst : ∀ task text, .load task text ∉ operationsFirst)
    (hkeepSecond : ∀ task text, .load task text ∉ operationsSecond) :
    ∃ benchFirst benchSecond,
      (ofWiring first suite disciplineFirst).performAll operationsFirst = .ok benchFirst ∧
      (ofWiring second other disciplineSecond).performAll operationsSecond = .ok benchSecond ∧
      benchFirst.sinks.map Sink.input = first.outputs ∧
      List.Forall₂ (fun first second => first.input = second.input ∧
        PrefixComparable first.results second.results) benchFirst.sinks benchSecond.sinks := by
  have hfreshSecond : ∀ node ∈ second.nodes, node.IsFresh := fun node hmem =>
    hfresh node (halike.nodes_perm.mem_iff.mpr hmem)
  obtain ⟨benchFirst, hperformFirst, hfollowsFirst, hlogFirst⟩ :=
    orderly_of_performAll hfresh hexclusive hroomFirst disciplineFirst hkeepFirst
  obtain ⟨benchSecond, hperformSecond, hfollowsSecond, hlogSecond⟩ :=
    orderly_of_performAll hfreshSecond (halike.isExclusive hexclusive) hroomSecond
      disciplineSecond hkeepSecond
  -- a member of one bench is compared with every member of the other that began like it
  let same (p : Fin first.size) (q : Fin second.size) : Prop :=
    (ofWiring first suite disciplineFirst).network.member p =
      (ofWiring second other disciplineSecond).network.member q
  have hagree : ∀ p q, same p q → Agree
      (comms (deedsOf p ((ofWiring first suite disciplineFirst).performAllTrace operationsFirst)))
      (comms (deedsOf q ((ofWiring second other disciplineSecond).performAllTrace operationsSecond))) :=
    fun p q hsame => (hfollowsFirst p).agree (hsame ▸ hfollowsSecond q)
  have hcomparable := hlogFirst.comparable hlogSecond
    (fun p q k => member_eq_of_writes hexclusive halike) hagree
  refine ⟨benchFirst, benchSecond, hperformFirst, hperformSecond, ?_, ?_⟩
  · have hinputs : List.Forall₂ (fun store last => store.input = last.input)
        (ofWiring first suite disciplineFirst).sinks benchFirst.sinks :=
      forall₂_sinks rfl fun p q hpq => by
        obtain rfl := Fin.ext hpq
        exact (hfollowsFirst p).rel_input
    have hmap := List.forall₂_map_left_iff.mpr (List.forall₂_map_right_iff.mpr hinputs)
    rw [List.forall₂_eq_eq_eq] at hmap
    rw [← hmap, sinks_ofWiring, List.map_map]
    exact List.map_id _
  · refine forall₂_sinks halike.size_eq fun p q hpq => ?_
    exact (hfollowsFirst p).rel_results (hfollowsSecond q) (sink?_member_eq halike hpq)
      (hcomparable p q)

/-- A node that passes on what it gets, from one channel to another. -/
def passing (input output : Fin 3) : Node 3 :=
  (Node.inert "PASS" fun
    | .up => some input
    | .down => some output
    | .left | .right => none).load "MOV UP, DOWN"

/-- Two nodes that pass on what they get, one after the other. -/
def chain : Wiring 3 where
  capacities := #v[0, 0, 0]
  nodes := [passing 0 1, passing 1 2]
  inputs := [0]
  outputs := [2]

/-- The same nodes the other way round, with room for values between them. -/
def roomyChain : Wiring 3 where
  capacities := #v[1, 3, 0]
  nodes := [passing 1 2, passing 0 1]
  inputs := [0]
  outputs := [2]

/-- Values for a chain, and those that are expected from it. -/
def sequence (expected : List Int64) : Suite := ⟨⟨[(0, [7, 8, 9])]⟩, ⟨[(0, expected)]⟩⟩

theorem isExclusive_chain : chain.IsExclusive (sequence []) where
  countP_reads_le := by decide +kernel
  countP_writes_le := by decide +kernel

/-- One chain is ticked in lockstep, the other one runs. -/
theorem comparable_chain :
    (∀ node ∈ chain.nodes, node.IsFresh) ∧ chain.IsExclusive (sequence []) ∧
      chain.Alike (sequence []) roomyChain (sequence [7, 8]) ∧
      (∀ k, chain.capacities.get k + 2 ≤ 2 ^ 63 - 1) ∧
      (∀ k, roomyChain.capacities.get k + 2 ≤ 2 ^ 63 - 1) ∧
      ∃ benchFirst benchSecond,
        (ofWiring chain (sequence []) .lockstep).performAll [.tick, .tick, .settle, .tick] =
            .ok benchFirst ∧
          (ofWiring roomyChain (sequence [7, 8]) .firstSettled).performAll [.tick, .run 20] =
            .ok benchSecond ∧
          benchFirst.sinks.map Sink.input = chain.outputs ∧
          List.Forall₂ (fun first second => first.input = second.input ∧
            PrefixComparable first.results second.results) benchFirst.sinks benchSecond.sinks := by
  have hfresh : ∀ node ∈ chain.nodes, node.IsFresh := by
    intro node hmem
    rcases List.mem_pair.mp hmem with rfl | rfl
    · exact ⟨_, _, Or.inr ⟨_, rfl⟩⟩
    · exact ⟨_, _, Or.inr ⟨_, rfl⟩⟩
  -- the two chains list their nodes in a different order
  have halike : chain.Alike (sequence []) roomyChain (sequence [7, 8]) :=
    ⟨.swap _ _ _, rfl, rfl, rfl⟩
  have hroom : ∀ k, chain.capacities.get k + 2 ≤ 2 ^ 63 - 1 := by decide
  have hroomy : ∀ k, roomyChain.capacities.get k + 2 ≤ 2 ^ 63 - 1 := by decide
  exact ⟨hfresh, isExclusive_chain, halike, hroom, hroomy,
    comparable_of_performAll hfresh isExclusive_chain halike hroom hroomy .lockstep
      .firstSettled (by simp) (by simp)⟩

end Bench

end NodeGrid
