import NodeGrid.Proofs.Participant.Streams

/-!
# Logs that do not depend on the order of events

In two logs of the same participants, things may happen at quite different times.  If
every channel belongs to one reader and one writer (`Exclusive`), then nobody can tell:
what a participant communicates in one log is a beginning of what it communicates in
the other, or the other way round (`Exclusive.comparable`).

The proof goes along the first log.  As long as two participants agree, the next
communication of theirs can only differ in a value that they receive from a channel.
Both values are at the same place in what has been sent into that channel, and the
writer of the channel has agreed with its counterpart so far.
-/

namespace NodeGrid

variable {n : ℕ}

/-! ## Lists that are comparable -/

/-- One of the lists is a prefix of the other. -/
def PrefixComparable {α : Type} (first second : List α) : Prop :=
  first <+: second ∨ second <+: first

namespace PrefixComparable

variable {α β : Type} {first second : List α}

theorem filterMap (hcomparable : PrefixComparable first second) (f : α → Option β) :
    PrefixComparable (first.filterMap f) (second.filterMap f) :=
  hcomparable.imp (fun hbegins => hbegins.filterMap f) fun hbegins => hbegins.filterMap f

theorem append_left (hcomparable : PrefixComparable first second) (common : List α) :
    PrefixComparable (common ++ first) (common ++ second) :=
  hcomparable.imp (List.prefix_append_right_inj common).mpr (List.prefix_append_right_inj common).mpr

/-- Comparable lists have the same elements at the same places. -/
theorem eq_of_append_prefix (hcomparable : PrefixComparable first second)
    {common rest later : List α} {value other : α} (hfirst : common ++ value :: rest <+: first)
    (hsecond : common ++ other :: later <+: second) : value = other := by
  obtain ⟨all, hvalue, hother⟩ :
      ∃ all, common ++ value :: rest <+: all ∧ common ++ other :: later <+: all := by
    rcases hcomparable with hbegins | hbegins
    · exact ⟨second, hfirst.trans hbegins, hsecond⟩
    · exact ⟨first, hfirst, hsecond.trans hbegins⟩
  obtain ⟨others, rfl⟩ := hvalue
  rw [List.append_assoc, List.prefix_append_right_inj] at hother
  exact (List.cons_prefix_cons.mp hother).1.symm

end PrefixComparable

theorem Agree.of_append_left {first rest second : List (Comm n)}
    (hagree : Agree (first ++ rest) second) : Agree first second := by
  induction first generalizing second with
  | nil => exact .left second
  | cons comm first ih =>
      cases hagree with
      | right => exact .right _
      | same _ hrest => exact .same comm (ih hrest)
      | received k hne => exact .received k hne

/-- Where lists that agree go on in different ways, different values are received from
the same channel. -/
theorem Agree.of_append {common first second : List (Comm n)} {comm other : Comm n}
    (hagree : Agree (common ++ comm :: first) (common ++ other :: second)) :
    comm = other ∨ ∃ k value late, comm = .received k value ∧ other = .received k late := by
  induction common with
  | nil =>
      cases hagree with
      | same _ hrest => exact Or.inl rfl
      | received k hne => exact Or.inr ⟨k, _, _, rfl, rfl⟩
  | cons next common ih =>
      rw [List.cons_append, List.cons_append] at hagree
      generalize hbefore : common ++ comm :: first = before at hagree
      generalize hlater : common ++ other :: second = later at hagree
      cases hagree with
      | same _ hrest =>
          subst hbefore hlater
          exact ih hrest
      | received k hne => exact absurd rfl hne

/-! ## Logs with one reader and one writer -/

variable {τ : Type}

/-- Every channel belongs to one reader and one writer, and what is taken out of it has
been put into it before. -/
structure Exclusive (reads writes : τ → Fin n → Bool) (log : Log τ n) : Prop where
  isUse : ∀ task deed, (task, deed) ∈ log → ∀ comm ∈ deed.comm?, comm.IsUse (reads task) (writes task)
  reader_eq : ∀ {k task other}, reads task k → reads other k → task = other
  writer_eq : ∀ {k task other}, writes task k → writes other k → task = other
  causal : ∀ before, before <+: log → ∀ k, receivedOn k before <+: sentOn k before

theorem mem_comms_deedsOf [DecidableEq τ] {task : τ} {log : Log τ n} {comm : Comm n} :
    comm ∈ comms (deedsOf task log) ↔ ∃ deed, (task, deed) ∈ log ∧ deed.comm? = some comm := by
  simp only [comms, deedsOf, List.mem_filterMap, Prod.exists, Option.ite_none_right_eq_some,
    Option.some.injEq]
  constructor
  · rintro ⟨deed, ⟨other, found, hmem, rfl, rfl⟩, hcomm⟩
    exact ⟨found, hmem, hcomm⟩
  · rintro ⟨deed, hmem, hcomm⟩
    exact ⟨deed, ⟨task, deed, hmem, rfl, rfl⟩, hcomm⟩

/-- What is read off the communications of all tasks is read off those of one task if
it is the only one that matters. -/
theorem filterMap_log_eq [DecidableEq τ] {α : Type} {f : Comm n → Option α} {task : τ} {log : Log τ n}
    (honly : ∀ other deed, (other, deed) ∈ log → ∀ comm ∈ deed.comm?, (f comm).isSome →
      other = task) :
    log.filterMap (fun entry => entry.2.comm?.bind f) =
      (comms (deedsOf task log)).filterMap f := by
  rw [comms, deedsOf, List.filterMap_filterMap, List.filterMap_filterMap]
  refine List.filterMap_congr fun entry hmem => ?_
  obtain ⟨other, deed⟩ := entry
  by_cases hother : other = task
  · simp [hother]
  · have hnone : ∀ comm, deed.comm? = some comm → f comm = none := fun comm hcomm => by
      by_contra hsome
      exact hother (honly other deed hmem comm hcomm (Option.isSome_iff_ne_none.mpr hsome))
    simpa [hother] using hnone

namespace Exclusive

variable {reads writes : τ → Fin n → Bool} {log before : Log τ n} {task : τ} {k : Fin n}

theorem of_prefix (hexclusive : Exclusive reads writes log) (hbegins : before <+: log) :
    Exclusive reads writes before where
  isUse task deed hmem := hexclusive.isUse task deed (hbegins.subset hmem)
  reader_eq := hexclusive.reader_eq
  writer_eq := hexclusive.writer_eq
  causal earlier hearlier := hexclusive.causal earlier (hearlier.trans hbegins)

theorem sentOn_eq [DecidableEq τ] (hexclusive : Exclusive reads writes log) (hwrites : writes task k) :
    sentOn k log = (comms (deedsOf task log)).filterMap (Comm.sent? k) := by
  refine filterMap_log_eq fun other deed hmem comm hcomm hsome => ?_
  have huse := hexclusive.isUse other deed hmem comm hcomm
  cases comm with
  | received j value => cases hsome
  | sent j value =>
      obtain rfl : j = k := by
        by_contra hne
        simp [Comm.sent?, hne] at hsome
      exact hexclusive.writer_eq huse hwrites

theorem receivedOn_eq [DecidableEq τ] (hexclusive : Exclusive reads writes log) (hreads : reads task k) :
    receivedOn k log = (comms (deedsOf task log)).filterMap (Comm.received? k) := by
  refine filterMap_log_eq fun other deed hmem comm hcomm hsome => ?_
  have huse := hexclusive.isUse other deed hmem comm hcomm
  cases comm with
  | sent j value => cases hsome
  | received j value =>
      obtain rfl : j = k := by
        by_contra hne
        simp [Comm.received?, hne] at hsome
      exact hexclusive.reader_eq huse hreads

/-- Whatever has been sent into a channel has a writer. -/
theorem exists_writer (hexclusive : Exclusive reads writes log) {value : Int64}
    (hmem : value ∈ sentOn k log) : ∃ task, writes task k := by
  obtain ⟨⟨task, deed⟩, hlog, hsent⟩ := List.mem_filterMap.mp hmem
  obtain ⟨comm, hcomm, hvalue⟩ := Option.bind_eq_some_iff.mp hsent
  have huse := hexclusive.isUse task deed hlog comm hcomm
  cases comm with
  | received j other => cases hvalue
  | sent j other =>
      obtain rfl : j = k := by
        by_contra hne
        simp [Comm.sent?, hne] at hvalue
      exact ⟨task, huse⟩

variable {σ : Type} [DecidableEq σ] [DecidableEq τ] {first earlier : Log σ n} {second : Log τ n}
  {readsFirst writesFirst : σ → Fin n → Bool} {readsSecond writesSecond : τ → Fin n → Bool}

/-- What has been sent into a channel is comparable if its writers are. -/
theorem comparable_sentOn (hfirst : Exclusive readsFirst writesFirst first)
    (hsecond : Exclusive readsSecond writesSecond second)
    (hwriters : ∀ p q, writesFirst p k → writesSecond q k →
      PrefixComparable (comms (deedsOf p first)) (comms (deedsOf q second))) :
    PrefixComparable (sentOn k first) (sentOn k second) := by
  cases hsent : sentOn k first with
  | nil => exact Or.inl (List.nil_prefix)
  | cons value rest =>
      cases hlater : sentOn k second with
      | nil => exact Or.inr (List.nil_prefix)
      | cons late others =>
          obtain ⟨p, hp⟩ := hfirst.exists_writer (hsent ▸ List.mem_cons_self)
          obtain ⟨q, hq⟩ := hsecond.exists_writer (hlater ▸ List.mem_cons_self)
          rw [← hsent, ← hlater, hfirst.sentOn_eq hp, hsecond.sentOn_eq hq]
          exact (hwriters p q hp hq).filterMap _

/-- Readers that have received the same values from a channel receive the same value
next. -/
theorem eq_of_received (hfirst : Exclusive readsFirst writesFirst first)
    (hsecond : Exclusive readsSecond writesSecond second)
    (hsent : PrefixComparable (sentOn k first) (sentOn k second)) {p : σ} {q : τ}
    {common rest later : List (Comm n)} {value late : Int64}
    (hp : comms (deedsOf p first) = common ++ .received k value :: rest)
    (hq : comms (deedsOf q second) = common ++ .received k late :: later) : value = late := by
  -- the channel has one reader in each history, so all that was received is in `common`
  have hreadsFirst : readsFirst p k := by
    obtain ⟨deed, hmem, hcomm⟩ := mem_comms_deedsOf.mp
      (hp ▸ List.mem_append_right common List.mem_cons_self)
    exact hfirst.isUse p deed hmem _ hcomm
  have hreadsSecond : readsSecond q k := by
    obtain ⟨deed, hmem, hcomm⟩ := mem_comms_deedsOf.mp
      (hq ▸ List.mem_append_right common List.mem_cons_self)
    exact hsecond.isUse q deed hmem _ hcomm
  have hbefore := hfirst.causal first List.prefix_rfl k
  have hlater := hsecond.causal second List.prefix_rfl k
  rw [hfirst.receivedOn_eq hreadsFirst, hp] at hbefore
  rw [hsecond.receivedOn_eq hreadsSecond, hq] at hlater
  simp only [List.filterMap_append, List.filterMap_cons, Comm.received?, if_true] at hbefore hlater
  -- both values stand at the same place of what was sent
  exact hsent.eq_of_append_prefix hbefore hlater

/-- Two participants that have agreed so far still do after the next communication of
one of them. -/
theorem comparable_concat (hfirst : Exclusive readsFirst writesFirst first)
    (hsecond : Exclusive readsSecond writesSecond second) {p : σ} {q : τ} {common : List (Comm n)}
    {comm : Comm n} (hp : comms (deedsOf p first) = common ++ [comm])
    (hcomparable : PrefixComparable common (comms (deedsOf q second)))
    (hagree : Agree (comms (deedsOf p first)) (comms (deedsOf q second)))
    (hsent : ∀ k value, comm = .received k value →
      PrefixComparable (sentOn k first) (sentOn k second)) :
    PrefixComparable (comms (deedsOf p first)) (comms (deedsOf q second)) := by
  rcases hcomparable with ⟨rest, hrest⟩ | hbegins
  · -- the first one stood where the other still goes on, so the next communications are compared
    cases rest with
    | nil =>
        rw [List.append_nil] at hrest
        exact Or.inr (hp ▸ hrest ▸ List.prefix_append common [comm])
    | cons other later =>
        obtain rfl : comm = other := by
          rw [hp, ← hrest] at hagree
          rcases hagree.of_append with heq | ⟨k, value, late, rfl, rfl⟩
          · exact heq
          · rw [hfirst.eq_of_received hsecond (hsent k value rfl) hp hrest.symm]
        exact Or.inl ⟨later, by rw [hp, ← hrest, List.append_assoc, List.singleton_append]⟩
  · -- the first one was ahead already
    exact Or.inr (hp ▸ hbegins.trans (List.prefix_append common [comm]))

/-- Participants that behave alike communicate alike, whatever the order of events. -/
theorem comparable {same : σ → τ → Prop} (hfirst : Exclusive readsFirst writesFirst first)
    (hsecond : Exclusive readsSecond writesSecond second)
    (hwriters : ∀ p q k, writesFirst p k → writesSecond q k → same p q)
    (hagree : ∀ p q, same p q → Agree (comms (deedsOf p first)) (comms (deedsOf q second))) :
    ∀ p q, same p q → PrefixComparable (comms (deedsOf p first)) (comms (deedsOf q second)) := by
  -- induction on what has happened so far in the first log
  induction first using List.reverseRecOn with
  | nil => exact fun p q _ => Or.inl List.nil_prefix
  | append_singleton earlier entry ih =>
      obtain ⟨task, deed⟩ := entry
      have hearlier := hfirst.of_prefix (List.prefix_append earlier [(task, deed)])
      have hbefore := ih hearlier fun p q hsame => by
        have hlonger := hagree p q hsame
        rw [deedsOf_append, comms_append] at hlonger
        exact hlonger.of_append_left
      intro p q hsame
      have hcomms : comms (deedsOf p (earlier ++ [(task, deed)])) =
          comms (deedsOf p earlier) ++ if task = p then deed.comm?.toList else [] := by
        rw [deedsOf_append, comms_append]
        split <;> simp_all [deedsOf, comms_cons]
      by_cases htask : task = p
      · rw [if_pos htask] at hcomms
        cases hcomm : deed.comm? with
        | none =>
            rw [hcomms, hcomm, Option.toList_none, List.append_nil]
            exact hbefore p q hsame
        | some comm =>
            rw [hcomm, Option.toList_some] at hcomms
            refine hfirst.comparable_concat hsecond hcomms (hbefore p q hsame) (hagree p q hsame) ?_
            rintro k value rfl
            -- nothing has been sent in this communication
            rw [sentOn_concat, hcomm, Option.bind_some, Comm.sent?, Option.toList_none,
              List.append_nil]
            exact hearlier.comparable_sentOn hsecond fun p q hp hq => hbefore p q (hwriters p q k hp hq)
      · rw [hcomms, if_neg htask, List.append_nil]
        exact hbefore p q hsame

section Ends

variable {participant : Participant n}

/-- Of its values, the writer of a channel has put the first ones into it. -/
theorem exists_source (hexclusive : Exclusive reads writes log) (hwrites : writes task k)
    {values : List Int64}
    (hfollows : (Participant.source (.ofValues values k)).Follows (deedsOf task log) participant) :
    ∃ source, participant = .source source ∧ source.output = k ∧
      sentOn k log ++ source.unsent = values := by
  obtain ⟨source, delivered, rfl, hdelivered, hvalues⟩ := hfollows.exists_source
  refine ⟨source, rfl, hfollows.output_eq, ?_⟩
  rw [hexclusive.sentOn_eq hwrites, hdelivered]
  exact (congrArg (· ++ source.unsent) (Participant.filterMap_sent k delivered)).trans hvalues

/-- The reader of a channel has collected what was taken out of it. -/
theorem exists_sink (hexclusive : Exclusive reads writes log) (hreads : reads task k)
    (hfollows : (Participant.sink (.ofChannel k)).Follows (deedsOf task log) participant) :
    ∃ sink, participant = .sink sink ∧ sink.input = k ∧ sink.results = receivedOn k log := by
  rcases hfollows.sink_cases with ⟨hstart, -⟩ | ⟨store, sink, hstore, rfl, hinput, hresults⟩
  · cases hstart
  · cases hstore
    refine ⟨sink, rfl, hinput, ?_⟩
    rw [hexclusive.receivedOn_eq hreads]
    exact hresults

end Ends

end Exclusive

/-- Sinks that began alike hold comparable values if what they have communicated is
comparable. -/
theorem Participant.Follows.rel_results {start origin now other : Participant n}
    {deeds more : List (Deed n)} (hfollows : start.Follows deeds now)
    (hother : origin.Follows more other) (hsink : start.sink? = origin.sink?)
    (hcomparable : start = origin → PrefixComparable (comms deeds) (comms more)) :
    Option.Rel (fun first second => first.input = second.input ∧
      PrefixComparable first.results second.results) now.sink? other.sink? := by
  rcases hfollows.sink_cases with ⟨hstart, hnow⟩ | ⟨store, last, rfl, rfl, hinput, hresults⟩
  · -- neither of them is a sink
    rcases hother.sink_cases with ⟨-, hnone⟩ | ⟨store, last, rfl, rfl, -, -⟩
    · rw [hnow, hnone]
      exact .none
    · rw [hstart] at hsink
      cases hsink
  · rcases hother.sink_cases with ⟨horigin, -⟩ | ⟨store, late, rfl, rfl, hlate, hlateResults⟩
    · rw [horigin] at hsink
      cases hsink
    · cases hsink
      refine .some ⟨hinput.trans hlate.symm, ?_⟩
      rw [hresults, hlateResults]
      exact ((hcomparable rfl).filterMap _).append_left _

end NodeGrid
