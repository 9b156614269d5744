import NodeGrid.Proofs.Bench.Operations
import NodeGrid.Proofs.Network.Trace

/-!
# What happens on a bench

The trace of an operation on a bench, and of a list of operations, is made of the
traces of its network.  `path_of_performAll`: whatever is done with a bench is a
path of its network with that trace.  On a sound network there always is such a path
(`exists_path_of_sound`).
-/

namespace NodeGrid.Bench

open Network (Path IsQuiet)

variable {m n : ℕ}

/-- The deeds of all members while a bench ticks until it is complete. -/
def tickUpToTrace (bench : Bench m n) : ℕ → Log (Fin m) n
  | 0 => []
  | budget + 1 =>
    if bench.isComplete then []
    else
      bench.network.tickTrace ++
        following bench.tick fun next => next.tickUpToTrace budget

/-- The log of a run. -/
def runTrace (bench : Bench m n) (budget : ℕ) : Log (Fin m) n :=
  bench.tickUpToTrace budget ++
    following (bench.tickUpTo budget) fun ended => ended.network.settleTrace

/-- The deeds of all members in an operation. -/
def performTrace (bench : Bench m n) : Operation m → Log (Fin m) n
  | .tick => bench.network.tickTrace
  | .run budget => bench.runTrace budget
  | .settle => bench.network.settleTrace
  | .load _ _ => []

/-- The deeds of all members in operations that are performed one after the other. -/
def performAllTrace (bench : Bench m n) : List (Operation m) → Log (Fin m) n
  | [] => []
  | operation :: rest =>
    bench.performTrace operation ++
      following (bench.perform operation) fun next => next.performAllTrace rest

variable {loads : Fin m → Prop} {bench next : Bench m n}

theorem path_of_tick (hquiet : bench.network.IsQuiet) (htick : bench.tick = .ok next) :
    Path loads .resuming bench.network bench.network.tickTrace .resuming next.network ∧
      next.network.IsQuiet := by
  obtain ⟨⟨settled, network⟩, hnetwork, hnext⟩ := bind_eq_ok.mp htick
  cases hnext
  exact Network.path_of_tick hquiet hnetwork

theorem path_of_settle (hsettle : bench.settle = .ok next) :
    Path loads .resuming bench.network bench.network.settleTrace .resuming next.network ∧
      next.network.IsQuiet := by
  obtain ⟨⟨settled, network⟩, hnetwork, hnext⟩ := bind_eq_ok.mp hsettle
  cases hnext
  obtain ⟨hpath, hready⟩ := Network.path_of_settle hnetwork
  exact ⟨hpath, fun _ => hready⟩

theorem path_of_tickUpTo {budget : ℕ} (hquiet : bench.network.IsQuiet)
    (hended : bench.tickUpTo budget = .ok next) :
    Path loads .resuming bench.network (bench.tickUpToTrace budget) .resuming next.network ∧
      next.network.IsQuiet := by
  induction budget generalizing bench with
  | zero =>
      cases hended
      exact ⟨.nil, hquiet⟩
  | succ budget ih =>
      unfold tickUpTo at hended
      unfold tickUpToTrace
      -- the trace stops where the run does
      by_cases hcomplete : bench.isComplete = true
      · rw [if_pos hcomplete] at hended ⊢
        cases hended
        exact ⟨.nil, hquiet⟩
      · rw [if_neg hcomplete] at hended ⊢
        obtain ⟨between, htick, hrest⟩ := bind_eq_ok.mp hended
        obtain ⟨hfirst, hbetween⟩ : Path loads .resuming bench.network _ .resuming _ ∧ _ :=
          path_of_tick hquiet htick
        obtain ⟨hlater, hlast⟩ := ih hbetween hrest
        rw [htick, following_ok]
        exact ⟨hfirst.trans hlater, hlast⟩

theorem path_of_perform {operation : Operation m} (hquiet : bench.network.IsQuiet)
    (hloads : ∀ task source, operation = .load task source → loads task)
    (hperform : bench.perform operation = .ok next) :
    Path loads .resuming bench.network (bench.performTrace operation) .resuming next.network ∧
      next.network.IsQuiet := by
  cases operation with
  | tick => exact path_of_tick hquiet hperform
  | settle => exact path_of_settle hperform
  | run budget =>
      obtain ⟨⟨ticks, last⟩, hrun, hpair⟩ := bind_eq_ok.mp hperform
      cases hpair
      -- first the ticks, then what is left to be settled
      obtain ⟨ended, hended, hrest⟩ := bind_eq_ok.mp hrun
      obtain ⟨settled, hsettled, hpair⟩ := bind_eq_ok.mp hrest
      cases hpair
      obtain ⟨hticks, -⟩ : Path loads .resuming bench.network _ .resuming _ ∧ _ :=
        path_of_tickUpTo hquiet hended
      obtain ⟨hsettle, hlast⟩ : Path loads .resuming ended.network _ .resuming _ ∧ _ :=
        path_of_settle hsettled
      simp only [performTrace, runTrace, hended, following_ok]
      exact ⟨hticks.trans hsettle, hlast⟩
  | load task source =>
      cases hperform
      exact ⟨Network.Step.path (.load (hloads task source rfl)), hquiet⟩

/-- Whatever is done with a bench is a path of its network. -/
theorem path_of_performAll {operations : List (Operation m)} {last : Bench m n}
    (hquiet : bench.network.IsQuiet)
    (hloads : ∀ task source, .load task source ∈ operations → loads task)
    (hperform : bench.performAll operations = .ok last) :
    Path loads .resuming bench.network (bench.performAllTrace operations) .resuming last.network ∧
      last.network.IsQuiet := by
  induction operations generalizing bench with
  | nil =>
      cases hperform
      exact ⟨.nil, hquiet⟩
  | cons operation rest ih =>
      obtain ⟨next, hnext, hrest⟩ := bind_eq_ok.mp hperform
      obtain ⟨hfirst, hbetween⟩ := path_of_perform hquiet
        (fun task source heq => hloads task source (heq ▸ List.mem_cons_self)) hnext
      obtain ⟨hlater, hlast⟩ := ih hbetween
        (fun task source hmem => hloads task source (List.mem_cons_of_mem operation hmem)) hrest
      rw [performAllTrace, hnext, following_ok]
      exact ⟨hfirst.trans hlater, hlast⟩

theorem performAllTrace_append {first second : List (Operation m)} {between : Bench m n}
    (hfirst : bench.performAll first = .ok between) :
    bench.performAllTrace (first ++ second) =
      bench.performAllTrace first ++ between.performAllTrace second := by
  induction first generalizing bench with
  | nil =>
      cases hfirst
      rfl
  | cons operation rest ih =>
      obtain ⟨next, hnext, hrest⟩ := bind_eq_ok.mp hfirst
      rw [List.cons_append, performAllTrace, performAllTrace, hnext, following_ok, following_ok,
        ih hrest, List.append_assoc]

/-- Nothing faults, whatever is done with the bench, if all members that get new
programs are users of what they can reach. -/
theorem exists_path_of_sound {users : Fin n → Finset (Fin m)} {operations : List (Operation m)}
    (hsound : bench.network.Sound users) (hquiet : bench.network.IsQuiet)
    (hloads : ∀ task source, .load task source ∈ operations → loads task)
    (hreach : ∀ task, loads task → ∀ k, (bench.network.member task).Reaches k → task ∈ users k) :
    ∃ last, bench.performAll operations = .ok last ∧
      Path loads .resuming bench.network (bench.performAllTrace operations) .resuming
        last.network := by
  -- once it is known to end, the path is there
  suffices hok : ∃ last, bench.performAll operations = .ok last by
    obtain ⟨last, hlast⟩ := hok
    exact ⟨last, hlast, (path_of_performAll hquiet hloads hlast).1⟩
  induction operations generalizing bench with
  | nil => exact ⟨bench, rfl⟩
  | cons operation rest ih =>
      have hload : ∀ task source, operation = .load task source → loads task :=
        fun task source heq => hloads task source (heq ▸ List.mem_cons_self)
      obtain ⟨next, hperform, hnext⟩ := perform_sound hsound operation fun task source heq =>
        hsound.load_of_reaches (hreach task (hload task source heq)) source
      obtain ⟨hpath, hbetween⟩ := path_of_perform hquiet hload hperform
      obtain ⟨last, hlast⟩ := ih hnext hbetween
        (fun task source hmem => hloads task source (List.mem_cons_of_mem operation hmem))
        fun task htask k hk => hreach task htask k (by rwa [← hpath.reaches_eq task])
      exact ⟨last, bind_eq_ok.mpr ⟨next, hperform, hlast⟩⟩

theorem isQuiet_ofWiring (wiring : Wiring n) (suite : Suite) (discipline : Discipline) :
    (ofWiring wiring suite discipline).network.IsQuiet := fun _ => rfl

section Wired

variable {wiring : Wiring n} {suite : Suite} {discipline : Discipline}
  {operations : List (Operation wiring.size)} {bench : Bench wiring.size n}
  (hperform : (ofWiring wiring suite discipline).performAll operations = .ok bench)

include hperform

theorem path_ofWiring : Path (fun _ => True) .resuming (ofWiring wiring suite discipline).network
    ((ofWiring wiring suite discipline).performAllTrace operations) .resuming bench.network :=
  (path_of_performAll (isQuiet_ofWiring wiring suite discipline) (fun _ _ _ => trivial) hperform).1

theorem isQuiet_of_performAll : bench.network.IsQuiet := by
  obtain ⟨-, hquiet⟩ : Path (fun _ => True) .resuming _ _ .resuming bench.network ∧ _ :=
    path_of_performAll (isQuiet_ofWiring wiring suite discipline) (fun _ _ _ => trivial) hperform
  exact hquiet

end Wired

end NodeGrid.Bench
