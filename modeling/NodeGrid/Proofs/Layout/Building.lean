import NodeGrid.Proofs.Layout.Attachments

/-!
# What becomes of a layout

A layout has a grid if its placements are at different positions within the grid
(`checkPlacements_eq_ok_iff`) and every program can be assembled on the node at its
position (`build_eq_ok_iff`).  Otherwise the error is one of two kinds.  The placements
are looked at first, in the order in which they are given, and the first one that is out
of place is reported (`checkPlacements_eq_error_iff`).  Only if there is none, the
programs are looked at, in the order of the positions (`buildAll_eq_error_iff`).

`Layout.Ends` lists these ends, and `ends_build` says that there are no others.  The
two ends that come after the placements have been accepted do not say in which order
they were given.
-/

namespace NodeGrid

open Assembly (CompileError)
open List (Forall₂)

/-! ## Lists of results -/

section Lists

variable {α β γ : Type}

theorem exists_forall₂ {related : α → β → Prop} {list : List α}
    (hexists : ∀ a ∈ list, ∃ b, related a b) : ∃ others, Forall₂ related list others := by
  induction list with
  | nil => exact ⟨[], .nil⟩
  | cons first rest ih =>
      obtain ⟨b, hb⟩ := hexists first List.mem_cons_self
      obtain ⟨others, hothers⟩ := ih fun a hmem => hexists a (List.mem_cons_of_mem first hmem)
      exact ⟨b :: others, .cons hb hothers⟩

theorem exists_of_forall₂ {related : α → β → Prop} {list : List α} {others : List β}
    (hrelated : Forall₂ related list others) {a : α} (hmem : a ∈ list) :
    ∃ b ∈ others, related a b := by
  obtain ⟨index, hindex, rfl⟩ := List.mem_iff_getElem.mp hmem
  exact ⟨_, List.getElem_mem (hrelated.length_eq ▸ hindex),
    hrelated.get hindex (hrelated.length_eq ▸ hindex)⟩

/-- What belongs to the same list belongs together. -/
theorem forall₂_of_common {first : α → β → Prop} {second : α → γ → Prop} {related : β → γ → Prop}
    (hrelated : ∀ a b c, first a b → second a c → related b c) {list : List α} {some : List β}
    {others : List γ} (hfirst : Forall₂ first list some) (hsecond : Forall₂ second list others) :
    Forall₂ related some others := by
  induction hfirst generalizing others with
  | nil =>
      cases hsecond
      exact .nil
  | cons hhead _ ih =>
      cases hsecond with
      | cons hother hrest => exact .cons (hrelated _ _ _ hhead hother) (ih hrest)

end Lists

/-! ## Placements -/

/-- Where the program is placed. -/
def Placement.position (placement : Placement) : ℕ × ℕ := (placement.row, placement.col)

namespace Layout

variable {layout : Layout} {rows cols : ℕ}

/-- Placements are accepted if they are at different positions within the grid. -/
theorem checkPlacements_eq_ok_iff {taken : List (ℕ × ℕ)} {placements : List Placement} :
    checkPlacements rows cols taken placements = .ok () ↔
      (∀ placement ∈ placements, (placement.row < rows ∧ placement.col < cols) ∧
        placement.position ∉ taken) ∧
      (placements.map Placement.position).Nodup := by
  -- the positions that are taken grow with every placement
  induction placements generalizing taken with
  | nil => simp [checkPlacements]
  | cons placement rest ih =>
      rw [List.forall_mem_cons, List.map_cons, List.nodup_cons, List.mem_map]
      unfold checkPlacements
      split
      · rename_i hbounds
        split
        · -- the position is taken already
          rename_i htaken
          simp [Placement.position, htaken]
        · -- it is free, and the others must neither be taken nor be this one
          rename_i hfree
          rw [ih]
          simp only [List.mem_cons, not_or, not_exists, not_and]
          constructor
          · rintro ⟨hrest, hnodup⟩
            exact ⟨⟨⟨hbounds, hfree⟩, fun other hmem =>
              ⟨(hrest other hmem).1, (hrest other hmem).2.2⟩⟩,
              fun other hmem => (hrest other hmem).2.1, hnodup⟩
          · rintro ⟨⟨-, hrest⟩, hother, hnodup⟩
            exact ⟨fun other hmem => ⟨(hrest other hmem).1, hother other hmem,
              (hrest other hmem).2⟩, hnodup⟩
      · rename_i hbounds
        constructor
        · intro hcheck
          cases hcheck
        · rintro ⟨⟨⟨hinside, -⟩, -⟩, -⟩
          exact absurd hinside hbounds

/-- The placements are at different positions within the grid. -/
structure Fit (rows cols : ℕ) (placements : List Placement) : Prop where
  inside : ∀ placement ∈ placements, placement.row < rows ∧ placement.col < cols
  nodup : (placements.map Placement.position).Nodup

theorem checkPlacements_nil_eq_ok_iff {placements : List Placement} :
    checkPlacements rows cols [] placements = .ok () ↔ Fit rows cols placements := by
  rw [checkPlacements_eq_ok_iff]
  constructor
  · rintro ⟨hinside, hnodup⟩
    exact ⟨fun placement hmem => (hinside placement hmem).1, hnodup⟩
  · rintro ⟨hinside, hnodup⟩
    exact ⟨fun placement hmem => ⟨hinside placement hmem, List.not_mem_nil⟩, hnodup⟩

theorem Fit.perm {placements others : List Placement} (hfit : Fit rows cols placements)
    (hperm : placements.Perm others) : Fit rows cols others :=
  ⟨fun placement hmem => hfit.inside placement (hperm.mem_iff.mpr hmem),
    (hperm.map Placement.position).nodup_iff.mp hfit.nodup⟩

/-- The placement is out of place after placements at the positions `taken`. -/
inductive Misplaced (rows cols : ℕ) (taken : List (ℕ × ℕ)) (placement : Placement) :
    LayoutError → Prop where
  | outside (hout : ¬ (placement.row < rows ∧ placement.col < cols)) :
      Misplaced rows cols taken placement (.outOfBounds placement.row placement.col rows cols)
  | repeated (hinside : placement.row < rows ∧ placement.col < cols)
      (htaken : placement.position ∈ taken) :
      Misplaced rows cols taken placement (.occupied placement.row placement.col)

theorem Misplaced.check_eq {taken : List (ℕ × ℕ)} {placement : Placement} {error : LayoutError}
    (hmisplaced : Misplaced rows cols taken placement error) (later : List Placement) :
    checkPlacements rows cols taken (placement :: later) = .error error := by
  unfold checkPlacements
  cases hmisplaced with
  | outside hout => exact if_neg hout
  | repeated hinside htaken =>
      rw [if_pos hinside]
      exact if_pos htaken

theorem misplaced_of_check {taken : List (ℕ × ℕ)} {placement : Placement} {error : LayoutError}
    (hcheck : checkPlacements rows cols taken [placement] = .error error) :
    Misplaced rows cols taken placement error := by
  unfold checkPlacements at hcheck
  split at hcheck
  · rename_i hinside
    split at hcheck
    · rename_i htaken
      cases hcheck
      exact .repeated hinside htaken
    · cases hcheck
  · rename_i hout
    cases hcheck
    exact .outside hout

theorem Misplaced.of_mem_iff {taken others : List (ℕ × ℕ)} {placement : Placement}
    {error : LayoutError} (hmisplaced : Misplaced rows cols taken placement error)
    (hsame : ∀ position, position ∈ taken ↔ position ∈ others) :
    Misplaced rows cols others placement error := by
  cases hmisplaced with
  | outside hout => exact .outside hout
  | repeated hinside htaken => exact .repeated hinside ((hsame _).mp htaken)

theorem checkPlacements_append (taken : List (ℕ × ℕ)) (earlier later : List Placement) :
    checkPlacements rows cols taken (earlier ++ later) =
      checkPlacements rows cols taken earlier >>= fun _ =>
        checkPlacements rows cols ((earlier.map Placement.position).reverse ++ taken) later := by
  induction earlier generalizing taken with
  | nil => rfl
  | cons first rest ih =>
      rw [List.cons_append, checkPlacements, checkPlacements, List.map_cons, List.reverse_cons,
        List.append_assoc]
      split
      · split
        · rfl
        · exact ih _
      · rfl

/-- The first placement that is out of place is the one that the error is about. -/
theorem checkPlacements_eq_error_iff {taken : List (ℕ × ℕ)} {placements : List Placement}
    {error : LayoutError} : checkPlacements rows cols taken placements = .error error ↔
      ∃ earlier placement later, placements = earlier ++ placement :: later ∧
        checkPlacements rows cols taken earlier = .ok () ∧
        Misplaced rows cols ((earlier.map Placement.position).reverse ++ taken) placement error := by
  constructor
  · intro hcheck
    induction placements using List.reverseRecOn with
    | nil => cases hcheck
    | append_singleton earlier placement ih =>
        rw [checkPlacements_append, bind_eq_error] at hcheck
        rcases hcheck with hcheck | ⟨⟨⟩, hearlier, hcheck⟩
        · obtain ⟨former, misplaced, later, rfl, hformer, hmisplaced⟩ := ih hcheck
          exact ⟨former, misplaced, later ++ [placement], by simp, hformer, hmisplaced⟩
        · exact ⟨earlier, placement, [], rfl, hearlier, misplaced_of_check hcheck⟩
  · rintro ⟨earlier, placement, later, rfl, hearlier, hmisplaced⟩
    rw [checkPlacements_append, hearlier, ok_bind]
    exact hmisplaced.check_eq later

/-! ## Programs -/

theorem mem_positions (row : Fin rows) (col : Fin cols) : (row, col) ∈ positions rows cols := by
  simp [positions]

theorem source?_eq_none_iff {row col : ℕ} : layout.source? row col = none ↔
    ∀ placement ∈ layout.placements, placement.position ≠ (row, col) := by
  simp [source?, Placement.position]

/-- At the position of a placement is its program. -/
theorem source?_of_mem
    (hcheck : checkPlacements layout.rows layout.cols [] layout.placements = .ok ())
    {placement : Placement} (hmem : placement ∈ layout.placements) :
    layout.source? placement.row placement.col = some placement.source := by
  have hnodup := (checkPlacements_eq_ok_iff.mp hcheck).2
  unfold source?
  cases hfind : layout.placements.find? fun other =>
      other.row == placement.row && other.col == placement.col with
  | none => simpa using List.find?_eq_none.mp hfind placement hmem
  | some other =>
      have hfound := List.find?_some hfind
      simp only [Bool.and_eq_true, beq_iff_eq] at hfound
      have hsame : other = placement :=
        List.inj_on_of_nodup_map hnodup (List.mem_of_find?_eq_some hfind) hmem
          (Prod.ext hfound.1 hfound.2)
      rw [hsame]
      rfl

theorem source?_eq_some_iff (hfit : Fit layout.rows layout.cols layout.placements) {row col : ℕ}
    {source : String} :
    layout.source? row col = some source ↔ ⟨row, col, source⟩ ∈ layout.placements := by
  constructor
  · intro hsource
    obtain ⟨placement, hfind, rfl⟩ := Option.map_eq_some_iff.mp hsource
    have hfound := List.find?_some hfind
    simp only [Bool.and_eq_true, beq_iff_eq] at hfound
    obtain ⟨rfl, rfl⟩ := hfound
    exact List.mem_of_find?_eq_some hfind
  · exact source?_of_mem (checkPlacements_nil_eq_ok_iff.mpr hfit)

/-- The node at a position without a program. -/
def vacant (row : Fin rows) (col : Fin cols) : Node (Edge.count rows cols) :=
  .inert (nodeName row col) (Edge.ports row col)

section Positions

variable {row : Fin layout.rows} {col : Fin layout.cols}
  {node : Node (Edge.count layout.rows layout.cols)} {broken : LayoutError}

/-- The node runs the program that is placed at its position; it is inert if there is
none. -/
inductive IsNodeAt (layout : Layout) (row : Fin layout.rows) (col : Fin layout.cols) :
    Node (Edge.count layout.rows layout.cols) → Prop where
  | vacant (hfree : ∀ placement ∈ layout.placements, placement.position ≠ (row.val, col.val)) :
      IsNodeAt layout row col (vacant row col)
  | loaded {source : String} {compilation : Assembly.Compilation}
      (hmem : ⟨row, col, source⟩ ∈ layout.placements)
      (hassemble : (Layout.vacant row col).assemble source = .ok compilation) :
      IsNodeAt layout row col ((Layout.vacant row col).load source)

/-- The program that is placed at the position cannot be assembled there. -/
def IsFaulty (layout : Layout) (row : Fin layout.rows) (col : Fin layout.cols)
    (error : CompileError) : Prop :=
  ∃ source, ⟨row, col, source⟩ ∈ layout.placements ∧
    (vacant row col).assemble source = .error error

theorem buildNode_eq_ok_iff_isNodeAt (hfit : Fit layout.rows layout.cols layout.placements) :
    layout.buildNode row col = .ok node ↔ layout.IsNodeAt row col node := by
  rw [buildNode_eq_ok_iff, source?_eq_none_iff]
  simp only [source?_eq_some_iff hfit]
  constructor
  · rintro (⟨hfree, rfl⟩ | ⟨source, compilation, hmem, hassemble, rfl⟩)
    · exact .vacant hfree
    · exact .loaded hmem hassemble
  · rintro (hfree | ⟨hmem, hassemble⟩)
    · exact Or.inl ⟨hfree, rfl⟩
    · exact Or.inr ⟨_, _, hmem, hassemble, rfl⟩

theorem buildNode_eq_error_iff (hfit : Fit layout.rows layout.cols layout.placements) :
    layout.buildNode row col = .error broken ↔
      ∃ error, layout.IsFaulty row col error ∧ broken = .compile row col error := by
  -- a position has at most one program, so the one that is found is the one that is meant
  have hbroken : layout.buildNode row col = .error broken ↔
      ∃ source, layout.source? row col = some source ∧ ∃ error,
        (vacant row col).assemble source = .error error ∧ broken = .compile row col error := by
    unfold buildNode placeNode vacant
    cases layout.source? row col with
    | none => simp
    | some source =>
        cases hassemble : (Node.inert (nodeName row col) (Edge.ports row col)).assemble source with
        | error error => simp [Node.ofSource, hassemble, Except.mapError, bind, Except.bind, eq_comm]
        | ok compilation =>
            simp [Node.ofSource, hassemble, Except.mapError, bind, Except.bind, pure, Except.pure]
  rw [hbroken]
  simp only [source?_eq_some_iff hfit]
  constructor
  · rintro ⟨source, hmem, error, hassemble, rfl⟩
    exact ⟨error, ⟨source, hmem, hassemble⟩, rfl⟩
  · rintro ⟨error, ⟨source, hmem, hassemble⟩, rfl⟩
    exact ⟨source, hmem, error, hassemble, rfl⟩

/-- Only one node can be built for a position. -/
theorem IsNodeAt.unique (hfit : Fit layout.rows layout.cols layout.placements)
    {other : Node (Edge.count layout.rows layout.cols)} (hat : layout.IsNodeAt row col node)
    (hnode : layout.buildNode row col = .ok other) : other = node :=
  Except.ok.inj (hnode.symm.trans ((buildNode_eq_ok_iff_isNodeAt hfit).mpr hat))

/-- A program whose ports are all connected is assembled. -/
theorem isNodeAt_load {source : String} {program : Program}
    (hmem : ⟨row, col, source⟩ ∈ layout.placements)
    (hcompile : ((Assembly.compile source).map (·.program)).toOption = some program)
    (hports : ∀ instruction ∈ program, ∀ port ∈ instruction.ports, (Edge.ports row col port).isSome) :
    layout.IsNodeAt row col ((vacant row col).load source) ∧
      ((vacant row col).load source).program = program := by
  cases hcompiled : Assembly.compile source with
  | error error =>
      rw [hcompiled] at hcompile
      cases hcompile
  | ok compilation =>
      rw [hcompiled] at hcompile
      obtain rfl : compilation.program = program := Option.some.inj hcompile
      have hassemble : (vacant row col).assemble source = .ok compilation :=
        Node.assemble_eq_ok_iff.mpr ⟨hcompiled, hports⟩
      exact ⟨.loaded hmem hassemble, Node.program_load hassemble⟩

end Positions

/-! ## The order of the positions -/

/-- The first position comes before the second one when the grid is read row by row. -/
def Before (position other : Fin rows × Fin cols) : Prop :=
  position.1 < other.1 ∨ position.1 = other.1 ∧ position.2 < other.2

theorem before_iff {position other : Fin rows × Fin cols} : Before position other ↔
    position.1.val * cols + position.2.val < other.1.val * cols + other.2.val := by
  obtain ⟨row, col⟩ := position
  obtain ⟨otherRow, otherCol⟩ := other
  simp only [Before, Fin.ext_iff, Fin.lt_def]
  have hcol := col.isLt
  have hother := otherCol.isLt
  rcases Nat.lt_trichotomy row.val otherRow.val with hlt | heq | hgt
  · have hnext := Nat.mul_le_mul_right cols hlt
    rw [Nat.succ_mul] at hnext
    omega
  · rw [heq]
    omega
  · have hnext := Nat.mul_le_mul_right cols hgt
    rw [Nat.succ_mul] at hnext
    omega

theorem pairwise_positions (rows cols : ℕ) : (positions rows cols).Pairwise Before := by
  have hnumbers : (List.range (rows * cols)).Pairwise (· < ·) := List.pairwise_lt_range
  rw [← map_positions rows cols, List.pairwise_map] at hnumbers
  exact hnumbers.imp before_iff.mpr

/-- What is listed before a position. -/
theorem mem_iff_before {earlier later : List (Fin rows × Fin cols)} {position : Fin rows × Fin cols}
    (hpositions : positions rows cols = earlier ++ position :: later)
    (other : Fin rows × Fin cols) : other ∈ earlier ↔ Before other position := by
  have hpairwise := pairwise_positions rows cols
  rw [hpositions, List.pairwise_append] at hpairwise
  obtain ⟨-, hlater, hearlier⟩ := hpairwise
  constructor
  · intro hmem
    exact hearlier other hmem position List.mem_cons_self
  · intro hbefore
    have hmem : other ∈ earlier ++ position :: later := hpositions ▸ mem_positions other.1 other.2
    rw [before_iff] at hbefore
    rcases List.mem_append.mp hmem with hmem | hmem
    · exact hmem
    · -- the position itself and what is listed behind it do not come before it
      exfalso
      rcases List.mem_cons.mp hmem with rfl | hmem
      · exact hbefore.false
      · have hafter := before_iff.mp (List.rel_of_pairwise_cons hlater hmem)
        omega

/-! ## The ends of building -/

/-- How building a grid ends. -/
inductive Ends (layout : Layout) : Except LayoutError Grid → Prop where
  /-- A placement is out of place, and those before it are not. -/
  | misplaced {earlier later : List Placement} {placement : Placement} {error : LayoutError}
      (hplacements : layout.placements = earlier ++ placement :: later)
      (hearlier : Fit layout.rows layout.cols earlier)
      (hmisplaced : Misplaced layout.rows layout.cols (earlier.map Placement.position) placement
        error) : Ends layout (.error error)
  /-- A program cannot be assembled, and those at the positions before it can. -/
  | faulty {row : Fin layout.rows} {col : Fin layout.cols} {error : CompileError}
      (hfit : Fit layout.rows layout.cols layout.placements)
      (hfaulty : layout.IsFaulty row col error)
      (hearlier : ∀ otherRow otherCol, Before (otherRow, otherCol) (row, col) →
        ∀ other, ¬ layout.IsFaulty otherRow otherCol other) :
      Ends layout (.error (.compile row col error))
  /-- There is a node at every position. -/
  | built {nodes : List (Node (Edge.count layout.rows layout.cols))}
      (hfit : Fit layout.rows layout.cols layout.placements)
      (hlength : nodes.length = layout.rows * layout.cols)
      (hnodes : ∀ row col, ∃ node, (layout.gridOf nodes).node? row.val col.val = some node ∧
        layout.IsNodeAt row col node) : Ends layout (.ok (layout.gridOf nodes))

theorem build_eq_ok_iff {grid : Grid} : layout.build = .ok grid ↔
    checkPlacements layout.rows layout.cols [] layout.placements = .ok () ∧
      ∃ nodes, Forall₂ (fun position node => layout.buildNode position.1 position.2 = .ok node)
        (positions layout.rows layout.cols) nodes ∧ grid = layout.gridOf nodes := by
  rw [build_eq]
  simp only [bind_eq_ok, mapM_eq_ok_iff]
  constructor
  · rintro ⟨⟨⟩, hcheck, nodes, hnodes, hgrid⟩
    cases hgrid
    exact ⟨hcheck, nodes, hnodes, rfl⟩
  · rintro ⟨hcheck, nodes, hnodes, rfl⟩
    exact ⟨(), hcheck, nodes, hnodes, rfl⟩

theorem build_eq_error_iff {broken : LayoutError} : layout.build = .error broken ↔
    checkPlacements layout.rows layout.cols [] layout.placements = .error broken ∨
      checkPlacements layout.rows layout.cols [] layout.placements = .ok () ∧
        ((positions layout.rows layout.cols).mapM fun position =>
          layout.buildNode position.1 position.2) = .error broken := by
  rw [build_eq, bind_eq_error]
  refine or_congr_right ⟨?_, fun ⟨hcheck, hnodes⟩ => ⟨(), hcheck, bind_eq_error.mpr (Or.inl hnodes)⟩⟩
  rintro ⟨⟨⟩, hcheck, hbuild⟩
  rcases bind_eq_error.mp hbuild with hnodes | ⟨nodes, -, hreturn⟩
  · exact ⟨hcheck, hnodes⟩
  · cases hreturn

section Grids

variable {broken : LayoutError}
  {nodes : List (Node (Edge.count layout.rows layout.cols))}

/-- The error of the placements is about the first one that is out of place. -/
theorem checkPlacements_nil_eq_error_iff {placements : List Placement} :
    checkPlacements rows cols [] placements = .error broken ↔
      ∃ earlier placement later, placements = earlier ++ placement :: later ∧
        Fit rows cols earlier ∧
        Misplaced rows cols (earlier.map Placement.position) placement broken := by
  have hsame : ∀ (earlier : List Placement) (position : ℕ × ℕ),
      position ∈ (earlier.map Placement.position).reverse ++ [] ↔
        position ∈ earlier.map Placement.position := by simp
  simp only [checkPlacements_eq_error_iff, checkPlacements_nil_eq_ok_iff]
  constructor
  · rintro ⟨earlier, placement, later, hplacements, hearlier, hmisplaced⟩
    exact ⟨earlier, placement, later, hplacements, hearlier, hmisplaced.of_mem_iff (hsame earlier)⟩
  · rintro ⟨earlier, placement, later, hplacements, hearlier, hmisplaced⟩
    exact ⟨earlier, placement, later, hplacements, hearlier,
      hmisplaced.of_mem_iff fun position => (hsame earlier position).symm⟩

/-- The error of the programs is about the first position whose program is faulty. -/
theorem buildAll_eq_error_iff (hfit : Fit layout.rows layout.cols layout.placements) :
    ((positions layout.rows layout.cols).mapM fun position =>
        layout.buildNode position.1 position.2) = .error broken ↔
      ∃ row col error, broken = .compile row.val col.val error ∧ layout.IsFaulty row col error ∧
        ∀ otherRow otherCol, Before (otherRow, otherCol) (row, col) →
          ∀ other, ¬ layout.IsFaulty otherRow otherCol other := by
  -- what is built is not faulty, and the other way round
  have hbuilds : ∀ row col, (∃ node, layout.buildNode row col = .ok node) ↔
      ∀ error, ¬ layout.IsFaulty row col error := by
    intro row col
    cases hbuild : layout.buildNode row col with
    | ok node =>
        refine iff_of_true ⟨node, rfl⟩ fun error hfaulty => ?_
        have hbroken := (buildNode_eq_error_iff hfit).mpr ⟨error, hfaulty, rfl⟩
        cases hbuild.symm.trans hbroken
    | error other =>
        obtain ⟨error, hfaulty, -⟩ := (buildNode_eq_error_iff hfit).mp hbuild
        exact iff_of_false (by simp) fun hsound => hsound error hfaulty
  rw [mapM_eq_error_iff]
  constructor
  · rintro ⟨earlier, ⟨row, col⟩, later, hpositions, hearlier, hposition⟩
    obtain ⟨error, hfaulty, rfl⟩ := (buildNode_eq_error_iff hfit).mp hposition
    refine ⟨row, col, error, rfl, hfaulty, fun otherRow otherCol hbefore => ?_⟩
    exact (hbuilds _ _).mp (hearlier _ ((mem_iff_before hpositions _).mpr hbefore))
  · rintro ⟨row, col, error, rfl, hfaulty, hearlier⟩
    obtain ⟨earlier, later, hpositions⟩ := List.append_of_mem (mem_positions row col)
    refine ⟨earlier, (row, col), later, hpositions, fun other hmem => ?_, ?_⟩
    · exact (hbuilds _ _).mpr (hearlier _ _ ((mem_iff_before hpositions other).mp hmem))
    · exact (buildNode_eq_error_iff hfit).mpr ⟨error, hfaulty, rfl⟩

/-- All nodes are built exactly if each of them is found at its position. -/
theorem forall₂_buildNode_iff (hfit : Fit layout.rows layout.cols layout.placements) :
    Forall₂ (fun position node => layout.buildNode position.1 position.2 = .ok node)
        (positions layout.rows layout.cols) nodes ↔
      nodes.length = layout.rows * layout.cols ∧
        ∀ row col, ∃ node, (layout.gridOf nodes).node? row.val col.val = some node ∧
          layout.IsNodeAt row col node := by
  constructor
  · intro hnodes
    have hbuilt : layout.AreBuilt nodes := AreBuilt.of_forall₂ hnodes
    refine ⟨hbuilt.length_eq, fun row col => ?_⟩
    obtain ⟨node, hindex, hnode⟩ := hbuilt.exists_node row col
    exact ⟨node, (node?_gridOf nodes row col).trans hindex,
      (buildNode_eq_ok_iff_isNodeAt hfit).mp hnode⟩
  · rintro ⟨hlength, hnodes⟩
    have hpositions := length_positions layout.rows layout.cols
    refine List.forall₂_iff_get.mpr ⟨hpositions.trans hlength.symm, fun index hindex hother => ?_⟩
    obtain ⟨⟨row, col⟩, hposition⟩ :
      ∃ position, (positions layout.rows layout.cols).get ⟨index, hindex⟩ = position := ⟨_, rfl⟩
    -- the node at this place of the list is the one of the position with this number
    have hnumber : index = row.val * layout.cols + col.val :=
      index_of_positions ((List.getElem?_eq_getElem hindex).trans (congrArg some hposition))
    obtain ⟨node, hlookup, hnode⟩ := hnodes row col
    have hlisted : nodes[index]? = some node :=
      (congrArg (nodes[·]?) hnumber).trans ((node?_gridOf nodes row col).symm.trans hlookup)
    have hget : nodes.get ⟨index, hother⟩ = node := (List.getElem?_eq_some_iff.mp hlisted).2
    rw [hposition, hget]
    exact (buildNode_eq_ok_iff_isNodeAt hfit).mpr hnode

theorem build_eq_iff_ends {outcome : Except LayoutError Grid} :
    layout.build = outcome ↔ layout.Ends outcome := by
  cases outcome with
  | error broken =>
      rw [build_eq_error_iff, checkPlacements_nil_eq_error_iff, checkPlacements_nil_eq_ok_iff]
      constructor
      · rintro (⟨earlier, placement, later, hplacements, hearlier, hmisplaced⟩ | ⟨hfit, hnodes⟩)
        · exact .misplaced hplacements hearlier hmisplaced
        · obtain ⟨row, col, error, rfl, hfaulty, hearlier⟩ := (buildAll_eq_error_iff hfit).mp hnodes
          exact .faulty hfit hfaulty hearlier
      · intro hends
        cases hends with
        | misplaced hplacements hearlier hmisplaced =>
            exact Or.inl ⟨_, _, _, hplacements, hearlier, hmisplaced⟩
        | faulty hfit hfaulty hearlier =>
            exact Or.inr ⟨hfit, (buildAll_eq_error_iff hfit).mpr ⟨_, _, _, rfl, hfaulty, hearlier⟩⟩
  | ok grid =>
      rw [build_eq_ok_iff, checkPlacements_nil_eq_ok_iff]
      constructor
      · rintro ⟨hfit, nodes, hnodes, rfl⟩
        obtain ⟨hlength, hnodes⟩ := (forall₂_buildNode_iff hfit).mp hnodes
        exact .built hfit hlength hnodes
      · intro hends
        cases hends with
        | built hfit hlength hnodes =>
            exact ⟨hfit, _, (forall₂_buildNode_iff hfit).mpr ⟨hlength, hnodes⟩, rfl⟩

/-- A layout has a grid if its placements fit and there is a node for every position. -/
theorem exists_build (hfit : Fit layout.rows layout.cols layout.placements)
    (hnodes : ∀ row col, ∃ node, layout.IsNodeAt row col node) :
    ∃ nodes, layout.build = .ok (layout.gridOf nodes) ∧ layout.AreBuilt nodes := by
  have hall : ∃ nodes, Forall₂
      (fun position node => layout.buildNode position.1 position.2 = .ok node)
      (positions layout.rows layout.cols) nodes := by
    refine exists_forall₂ fun position _ => ?_
    obtain ⟨node, hnode⟩ := hnodes position.1 position.2
    exact ⟨node, (buildNode_eq_ok_iff_isNodeAt hfit).mpr hnode⟩
  obtain ⟨nodes, hnodes⟩ := hall
  exact ⟨nodes, build_eq_ok_iff.mpr ⟨checkPlacements_nil_eq_ok_iff.mpr hfit, nodes, hnodes, rfl⟩,
    .of_forall₂ hnodes⟩

/-- The two ends that come after the placements have been accepted do not depend on their
order. -/
theorem Ends.perm {outcome : Except LayoutError Grid} (hends : layout.Ends outcome)
    (hfit : Fit layout.rows layout.cols layout.placements) {others : List Placement}
    (hperm : layout.placements.Perm others) :
    { layout with placements := others }.Ends outcome := by
  -- which programs are faulty does not depend on the order of the placements
  have hfaulty : ∀ row col error, { layout with placements := others }.IsFaulty row col error ↔
      layout.IsFaulty row col error := fun row col error =>
    exists_congr fun source => and_congr_left' hperm.mem_iff.symm
  cases hends with
  | misplaced hplacements hearlier hmisplaced =>
      -- this end is not among them: the placements fit
      have hcheck := checkPlacements_nil_eq_error_iff.mpr
        ⟨_, _, _, hplacements, hearlier, hmisplaced⟩
      cases (checkPlacements_nil_eq_ok_iff.mpr hfit).symm.trans hcheck
  | faulty _ hposition hearlier =>
      refine .faulty (hfit.perm hperm) ((hfaulty _ _ _).mpr hposition) ?_
      exact fun row col hbefore error hother => hearlier row col hbefore error
        ((hfaulty row col error).mp hother)
  | @built nodes _ hlength hnodes =>
      change { layout with placements := others }.Ends
        (.ok ({ layout with placements := others }.gridOf nodes))
      refine .built (hfit.perm hperm) hlength ?_
      intro row col
      obtain ⟨node, hlookup, hnode⟩ := hnodes row col
      refine ⟨node, hlookup, ?_⟩
      cases hnode with
      | vacant hfree =>
          exact .vacant fun placement hmem => hfree placement (hperm.mem_iff.mpr hmem)
      | loaded hmem hassemble => exact .loaded (hperm.mem_iff.mp hmem) hassemble

end Grids

theorem exists_misplaced_iff {placements : List Placement} :
    (∃ earlier placement later error, placements = earlier ++ placement :: later ∧
        Misplaced rows cols (earlier.map Placement.position) placement error) ↔
      ¬ Fit rows cols placements := by
  constructor
  · rintro ⟨earlier, placement, later, error, rfl, hmisplaced⟩ hfit
    cases hmisplaced with
    | outside hout => exact hout (hfit.inside placement (by simp))
    | repeated _ htaken =>
        have hnodup := hfit.nodup
        rw [List.map_append, List.nodup_append] at hnodup
        exact hnodup.2.2 _ htaken _ (by simp) rfl
  · intro hunfit
    -- the check finds the first placement that is out of place
    cases hcheck : checkPlacements rows cols [] placements with
    | ok accepted => exact absurd (checkPlacements_nil_eq_ok_iff.mp hcheck) hunfit
    | error broken =>
        obtain ⟨earlier, placement, later, hplacements, -, hmisplaced⟩ :=
          checkPlacements_nil_eq_error_iff.mp hcheck
        exact ⟨earlier, placement, later, broken, hplacements, hmisplaced⟩

/-- How building a grid ends: with the first placement that is out of place if there is
one, then with the first position whose program is faulty if there is one, and else with
a grid.  If no placement is out of place, their order does not matter. -/
theorem ends_build (layout : Layout) :
    (∀ outcome, layout.build = outcome ↔ layout.Ends outcome) ∧
    ((∃ earlier placement later error, layout.placements = earlier ++ placement :: later ∧
        Misplaced layout.rows layout.cols (earlier.map Placement.position) placement error) ↔
      ¬ Fit layout.rows layout.cols layout.placements) ∧
    (Fit layout.rows layout.cols layout.placements →
      ∀ others, layout.placements.Perm others →
        { layout with placements := others }.build = layout.build) := by
  refine ⟨fun outcome => build_eq_iff_ends, exists_misplaced_iff, fun hfit others hperm => ?_⟩
  exact build_eq_iff_ends.mpr ((build_eq_iff_ends.mp rfl).perm hfit hperm)

/-- Two nodes in one row that ask for the ports at the outer sides of the row. -/
def overreaching : Layout where
  rows := 1
  cols := 2
  capacity := 1
  placements := [⟨0, 1, "MOV UP, RIGHT"⟩, ⟨0, 0, "MOV UP, DOWN\nADD LEFT"⟩]

/-- The node on the left is reported, whichever is placed first. -/
theorem ends_build_overreaching :
    Fit overreaching.rows overreaching.cols overreaching.placements ∧
    overreaching.build = .error (.compile 0 0 ⟨2, .unconnectedPort .left⟩) ∧
    { overreaching with placements := overreaching.placements.reverse }.build =
      .error (.compile 0 0 ⟨2, .unconnectedPort .left⟩) := by
  obtain ⟨hends, -, hperm⟩ := ends_build overreaching
  have hfit : Fit overreaching.rows overreaching.cols overreaching.placements :=
    checkPlacements_nil_eq_ok_iff.mp (by decide)
  -- the first program names a port at the outer side of the row
  have hfaulty : overreaching.IsFaulty (0 : Fin 1) (0 : Fin 2) ⟨2, .unconnectedPort .left⟩ := by
    refine ⟨"MOV UP, DOWN\nADD LEFT", by decide, ?_⟩
    have hresult : ((vacant (0 : Fin 1) (0 : Fin 2)).assemble "MOV UP, DOWN\nADD LEFT").map
        (fun _ => ()) = .error ⟨2, .unconnectedPort .left⟩ := by decide +kernel
    cases hassemble : (vacant (0 : Fin 1) (0 : Fin 2)).assemble "MOV UP, DOWN\nADD LEFT" with
    | error error =>
        rw [hassemble] at hresult
        cases hresult
        exact hassemble
    | ok compilation =>
        rw [hassemble] at hresult
        cases hresult
  have hbuild : overreaching.build = .error (.compile 0 0 ⟨2, .unconnectedPort .left⟩) := by
    refine (hends _).mpr (.faulty hfit hfaulty fun row col hbefore => ?_)
    have hnumber := before_iff.mp hbefore
    simp at hnumber
  exact ⟨hfit, hbuild, (hperm hfit _ (List.reverse_perm _).symm).trans hbuild⟩

end Layout

end NodeGrid
