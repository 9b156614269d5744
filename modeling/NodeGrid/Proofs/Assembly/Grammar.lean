import NodeGrid.Assembly.Statement
import NodeGrid.Proofs.Assembly.Lexing
import NodeGrid.Proofs.Yields

/-!
# The grammar of a line

What the tokens of a line may be, said without reading them.  They say which
labels the line defines and which operation it holds (`IsLine`).  Reading the
tokens of a line succeeds exactly on those and gives what they say
(`ofTokens_eq_ok_iff`).
-/

namespace NodeGrid.Assembly

/-! ## Operations -/

/-- The token writes the operand that an operation takes its value from. -/
inductive IsSource : Token → Operand → Prop where
  | register (register : Register) : IsSource (.word (.register register)) (.register register)
  | immediate {numeral : List Char} {value : Int64} (hdenotes : Denotes numeral value.toInt) :
      IsSource (.number numeral) (.immediate value)

/-- Every word but the name of a register may be a label. -/
def IsLabel (word : Word) : Prop := ∀ register, word ≠ .register register

/-- The tokens write the operation with its operands. -/
inductive IsOperation : List Token → Draft → Prop where
  | plain (operation : Plain) : IsOperation [.word (.plain operation)] (.ready (.plain operation))
  | unary (operation : Unary) {token : Token} {source : Operand} (hsource : IsSource token source) :
      IsOperation [.word (.unary operation), token] (.ready (.unary operation source))
  | move {token : Token} {source : Operand} (hsource : IsSource token source) (target : Register) :
      IsOperation [.word .move, token, .comma, .word (.register target)]
        (.ready (.move source target))
  | jump (condition : Condition) {numeral : List Char} {target : ℕ}
      (hdecimal : IsDecimal numeral target) (hfits : target < 2 ^ 64) :
      IsOperation [.word (.jump condition), .number numeral] (.ready (.jump condition target))
  | toLabel (condition : Condition) {label : Word} (hlabel : IsLabel label) :
      IsOperation [.word (.jump condition), .word label] (.toLabel condition label.letters)

/-- The tokens of a line: labels, each with a colon after it, and then nothing or
an operation. -/
inductive IsLine : List Token → Statement → Prop where
  | blank : IsLine [] ⟨[], none⟩
  | operation {tokens : List Token} {draft : Draft} (hoperation : IsOperation tokens draft) :
      IsLine tokens ⟨[], some draft⟩
  | label {word : Word} {tokens : List Token} {statement : Statement} (hlabel : IsLabel word)
      (hrest : IsLine tokens statement) :
      IsLine (.word word :: .colon :: tokens) { statement with
        labels := word.letters :: statement.labels }

/-! ## Reading the tokens of a line -/

/-- After an operand, the others follow with a comma before each. -/
theorem moreOperands_eq_ok {tokens operands : List Token} (first : Token)
    (hread : Shape.moreOperands tokens = .ok operands) :
    first :: tokens = (first :: operands).intersperse .comma := by
  fun_induction Shape.moreOperands tokens generalizing first operands with
  | case1 =>
      cases hread
      rfl
  | case5 operand rest hcolon hcomma ih =>
      obtain ⟨others, hothers, hreturn⟩ := bind_eq_ok.mp hread
      cases hreturn
      rw [List.intersperse_cons_cons, ← ih operand hothers]
  | _ => cases hread

/-- The operands of an operation stand between commas. -/
theorem operands_eq_ok {tokens operands : List Token}
    (hread : Shape.operands tokens = .ok operands) : tokens = operands.intersperse .comma := by
  cases tokens with
  | nil =>
      cases hread
      rfl
  | cons operand rest =>
      cases operand with
      | word _ | number _ =>
          obtain ⟨others, hothers, hreturn⟩ := bind_eq_ok.mp hread
          cases hreturn
          exact moreOperands_eq_ok _ hothers
      | colon | comma => cases hread

theorem mem_intersperse {token separator : Token} {tokens : List Token} (hmem : token ∈ tokens) :
    token ∈ tokens.intersperse separator := by
  induction tokens with
  | nil => cases hmem
  | cons first rest ih =>
      cases rest with
      | nil => exact hmem
      | cons second rest =>
          rw [List.intersperse_cons_cons]
          rcases List.mem_cons.mp hmem with rfl | hlater
          · exact List.mem_cons_self
          · exact List.mem_cons_of_mem _ (List.mem_cons_of_mem _ (ih hlater))

theorem readSource_eq_ok_iff {operation : Word} {token : Token} {source : Operand}
    (hnumeral : ∀ numeral, token = .number numeral → IsNumeral numeral) :
    readSource operation token = .ok source ↔ IsSource token source := by
  constructor
  · intro hread
    unfold readSource at hread
    split at hread
    · rename_i numeral
      split at hread
      · rename_i value hvalue
        cases hread
        exact .immediate ((readValue?_eq_some_iff (hnumeral _ rfl)).mp hvalue)
      · cases hread
    · cases hread
      exact .register _
    · cases hread
  · intro hsource
    -- immediate values and registers, nothing else
    cases hsource with
    | register register => rfl
    | immediate hdenotes =>
        rw [readSource, (readValue?_eq_some_iff (hnumeral _ rfl)).mpr hdenotes]

theorem readTarget_eq_ok_iff {token : Token} {target : Register} :
    readTarget token = .ok target ↔ token = .word (.register target) := by
  unfold readTarget
  split
  · simp
  · rename_i hnot
    simpa using hnot target

theorem label?_eq_some_iff {word : Word} {label : List Char} :
    word.label? = some label ↔ IsLabel word ∧ word.letters = label := by
  cases word <;> simp [Word.label?, IsLabel]

theorem readLabel_eq_ok_iff {word : Word} {label : List Char} :
    readLabel word = .ok label ↔ IsLabel word ∧ word.letters = label := by
  cases word <;> simp [readLabel, IsLabel]

/-- A jump goes to an index that fits, or to a label. -/
theorem readJump_eq_ok_iff {condition : Condition} {token : Token} {draft : Draft}
    (hnumeral : ∀ numeral, token = .number numeral → IsNumeral numeral) :
    readJump condition token = .ok draft ↔ IsOperation [.word (.jump condition), token] draft := by
  cases token with
  | number numeral =>
      have hcount := @readCount?_eq_some_iff numeral (hnumeral numeral rfl)
      constructor
      · intro hread
        simp only [readJump] at hread
        split at hread
        · rename_i target htarget
          cases hread
          obtain ⟨hdecimal, hfits⟩ := hcount.mp htarget
          exact .jump condition hdecimal hfits
        · cases hread
      · intro hoperation
        cases hoperation with
        | jump condition hdecimal hfits => simp [readJump, hcount.mpr ⟨hdecimal, hfits⟩]
  | word word =>
      constructor
      · intro hread
        simp only [readJump] at hread
        split at hread
        · rename_i label hlabel
          cases hread
          obtain ⟨hname, rfl⟩ := label?_eq_some_iff.mp hlabel
          exact .toLabel condition hname
        · cases hread
      · intro hoperation
        cases hoperation with
        | toLabel condition hname => simp [readJump, label?_eq_some_iff.mpr ⟨hname, rfl⟩]
  | colon | comma =>
      -- marks are no targets
      constructor
      · intro hread
        cases hread
      · intro hoperation
        cases hoperation

/-- What is read as an operation was written as one. -/
theorem isOperation_of_ofOperation {word : Word} {operands : List Token} {draft : Draft}
    (hnumerals : ∀ numeral, .number numeral ∈ operands → IsNumeral numeral)
    (hread : Draft.ofOperation word operands = .ok draft) :
    IsOperation (.word word :: operands.intersperse .comma) draft := by
  -- pattern by pattern, in the order of the definition
  unfold Draft.ofOperation at hread
  split at hread
  · cases hread
    exact .plain _
  · cases hread
  · rename_i operation token
    obtain ⟨source, hsource, hreturn⟩ := bind_eq_ok.mp hread
    cases hreturn
    refine .unary operation ((readSource_eq_ok_iff ?_).mp hsource)
    rintro numeral rfl
    exact hnumerals numeral (by simp)
  · cases hread
  · rename_i token targetToken
    obtain ⟨source, hsource, hrest⟩ := bind_eq_ok.mp hread
    obtain ⟨target, htarget, hreturn⟩ := bind_eq_ok.mp hrest
    cases hreturn
    obtain rfl := readTarget_eq_ok_iff.mp htarget
    refine .move ((readSource_eq_ok_iff ?_).mp hsource) target
    rintro numeral rfl
    exact hnumerals numeral (by simp)
  · cases hread
  · rename_i condition token
    refine (readJump_eq_ok_iff ?_).mp hread
    rintro numeral rfl
    exact hnumerals numeral (by simp)
  · cases hread
  · cases hread

theorem IsSource.readSource {token : Token} {source : Operand} (hsource : IsSource token source)
    (operation : Word) : Assembly.readSource operation token = .ok source := by
  refine (readSource_eq_ok_iff ?_).mpr hsource
  rintro numeral rfl
  cases hsource with
  | immediate hdenotes => exact ⟨_, hdenotes⟩

/-- What is written as an operation is read as it. -/
theorem IsOperation.exists_shape {tokens : List Token} {draft : Draft}
    (hoperation : IsOperation tokens draft) :
    ∃ word operands, Shape.ofTokens tokens = .ok ⟨[], some (word, operands)⟩ ∧
      Draft.ofOperation word operands = .ok draft := by
  cases hoperation with
  | plain operation => exact ⟨_, _, rfl, rfl⟩
  | unary operation hsource =>
      refine ⟨.unary operation, [_], ?_, by rw [Draft.ofOperation, hsource.readSource]; rfl⟩
      -- a source is no colon, so the word is not taken for a label
      cases hsource <;> rfl
  | @move token source hsource target =>
      refine ⟨.move, [token, .word (.register target)], ?_,
        by rw [Draft.ofOperation, hsource.readSource]; rfl⟩
      cases hsource <;> rfl
  | jump condition hdecimal hfits =>
      have hjump := IsOperation.jump condition hdecimal hfits
      refine ⟨.jump condition, [_], rfl, (readJump_eq_ok_iff ?_).mpr hjump⟩
      rintro numeral ⟨⟩
      exact ⟨_, .positive hdecimal⟩
  | toLabel condition hlabel =>
      refine ⟨.jump condition, [_], rfl, (readJump_eq_ok_iff ?_).mpr (.toLabel condition hlabel)⟩
      rintro numeral ⟨⟩

/-- A statement is read if all of its labels are, and its operation. -/
theorem ofShape_eq_ok_iff {shape : Shape} {statement : Statement} :
    Statement.ofShape shape = .ok statement ↔
      shape.labels.mapM readLabel = .ok statement.labels ∧
        match shape.operation with
        | none => statement.draft = none
        | some (operation, operands) => ∃ draft,
            Draft.ofOperation operation operands = .ok draft ∧ statement.draft = some draft := by
  obtain ⟨labels, draft⟩ := statement
  cases hoperation : shape.operation with
  | none =>
      simp only [Statement.ofShape, hoperation, bind_eq_ok]
      constructor
      · rintro ⟨read, hread, ⟨⟩⟩
        exact ⟨hread, rfl⟩
      · rintro ⟨hread, rfl⟩
        exact ⟨labels, hread, rfl⟩
  | some operation =>
      simp only [Statement.ofShape, hoperation, bind_eq_ok]
      constructor
      · rintro ⟨read, hread, written, hwritten, ⟨⟩⟩
        exact ⟨hread, written, hwritten, rfl⟩
      · rintro ⟨hread, written, hwritten, rfl⟩
        exact ⟨labels, hread, written, hwritten, rfl⟩

/-- The first label of a line is read before the rest. -/
theorem ofShape_cons_eq_ok_iff {label : Word} {shape : Shape} {statement : Statement} :
    Statement.ofShape { shape with labels := label :: shape.labels } = .ok statement ↔
      IsLabel label ∧ ∃ rest, Statement.ofShape shape = .ok rest ∧
        statement = { rest with labels := label.letters :: rest.labels } := by
  -- the labels are read one by one
  have hlabels : ∀ labels, (label :: shape.labels).mapM readLabel = .ok labels ↔
      IsLabel label ∧ ∃ rest, shape.labels.mapM readLabel = .ok rest ∧
        labels = label.letters :: rest := by
    intro labels
    rw [List.mapM_cons, bind_eq_ok]
    constructor
    · rintro ⟨first, hfirst, hothers⟩
      obtain ⟨rest, hrest, ⟨⟩⟩ := bind_eq_ok.mp hothers
      obtain ⟨hlabel, rfl⟩ := readLabel_eq_ok_iff.mp hfirst
      exact ⟨hlabel, rest, hrest, rfl⟩
    · rintro ⟨hlabel, rest, hrest, rfl⟩
      exact ⟨_, readLabel_eq_ok_iff.mpr ⟨hlabel, rfl⟩, bind_eq_ok.mpr ⟨rest, hrest, rfl⟩⟩
  simp only [ofShape_eq_ok_iff, hlabels]
  constructor
  · rintro ⟨⟨hlabel, rest, hrest, hall⟩, hoperation⟩
    exact ⟨hlabel, ⟨rest, statement.draft⟩, ⟨hrest, hoperation⟩, by rw [← hall]⟩
  · rintro ⟨hlabel, rest, ⟨hrest, hoperation⟩, rfl⟩
    exact ⟨⟨hlabel, rest.labels, hrest, rfl⟩, hoperation⟩

theorem isLine_of_ofShape {tokens : List Token} {shape : Shape} {statement : Statement}
    (hnumerals : ∀ numeral, .number numeral ∈ tokens → IsNumeral numeral)
    (hread : Shape.ofTokens tokens = .ok shape) (hshape : Statement.ofShape shape = .ok statement) :
    IsLine tokens statement := by
  -- labels are taken off the front until the operation comes, or nothing
  fun_induction Shape.ofTokens tokens generalizing shape statement with
  | case1 =>
      cases hread
      cases hshape
      exact .blank
  | case2 label rest ih =>
      obtain ⟨inner, hinner, hreturn⟩ := bind_eq_ok.mp hread
      cases hreturn
      obtain ⟨hlabel, later, hlater, rfl⟩ := ofShape_cons_eq_ok_iff.mp hshape
      refine .label hlabel (ih ?_ hinner hlater)
      exact fun numeral hmem => hnumerals numeral (by simp [hmem])
  | case3 operation rest hcolon =>
      obtain ⟨operands, hoperands, hreturn⟩ := bind_eq_ok.mp hread
      cases hreturn
      obtain ⟨labels, draft⟩ := statement
      obtain ⟨hlabels, written, hwritten, hdraft⟩ := ofShape_eq_ok_iff.mp hshape
      cases hlabels
      cases hdraft
      obtain rfl := operands_eq_ok hoperands
      refine .operation (isOperation_of_ofOperation (fun numeral hmem => ?_) hwritten)
      exact hnumerals numeral (List.mem_cons_of_mem _ (mem_intersperse hmem))
  | case4 => cases hread

theorem IsLine.exists_shape {tokens : List Token} {statement : Statement}
    (hline : IsLine tokens statement) :
    ∃ shape, Shape.ofTokens tokens = .ok shape ∧ Statement.ofShape shape = .ok statement := by
  induction hline with
  | blank => exact ⟨_, rfl, rfl⟩
  | operation hoperation =>
      obtain ⟨word, operands, hread, hdraft⟩ := hoperation.exists_shape
      exact ⟨_, hread, ofShape_eq_ok_iff.mpr ⟨rfl, _, hdraft, rfl⟩⟩
  | label hlabel hrest ih =>
      obtain ⟨shape, hread, hshape⟩ := ih
      exact ⟨_, by rw [Shape.ofTokens, hread]; rfl,
        ofShape_cons_eq_ok_iff.mpr ⟨hlabel, _, hshape, rfl⟩⟩

/-- The tokens of a line are read exactly if they are a line, and as what they say. -/
theorem ofTokens_eq_ok_iff {line : List Char} {tokens : List Token} {statement : Statement}
    (hlexes : Lexes line tokens) :
    Statement.ofTokens tokens = .ok statement ↔ IsLine tokens statement := by
  rw [Statement.ofTokens, bind_eq_ok]
  constructor
  · rintro ⟨shape, hread, hshape⟩
    exact isLine_of_ofShape hlexes.isNumeral hread hshape
  · exact IsLine.exists_shape

end NodeGrid.Assembly
