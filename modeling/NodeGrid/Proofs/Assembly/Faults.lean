import NodeGrid.Proofs.Assembly.Grammar

/-!
# What is wrong with a line

The faults of a line, said without reading it: a character that starts no token
(`Strays`), and for the tokens of a line the first of its faults (`IsFault`).  The
shape of the line comes first (`Misshapen`), then a register that stands as a label,
then the operation (`Misapplied`).

A line on which a character strays is not cut into tokens, and reports that character
(`scan_eq_error_iff`); the tokens of a line are not read exactly if there is a fault,
and report the first one (`ofTokens_eq_error_iff`).
-/

namespace NodeGrid.Assembly

/-! ## Characters that start no token -/

/-- Cut into the longest lexemes from the left, the line comes to this character, which
stands neither for a blank nor for a comment and starts no lexeme. -/
inductive Strays : List Char → Char → Prop where
  | here {c : Char} {rest : List Char} (hgap : c ∉ [' ', '\t', '\r', '\x0c']) (hcomment : c ≠ '#')
      (hnone : ∀ text token, text <+: c :: rest → ¬ Lexeme text token) : Strays (c :: rest) c
  | gap {c stray : Char} {rest : List Char} (hgap : c ∈ [' ', '\t', '\r', '\x0c'])
      (hrest : Strays rest stray) : Strays (c :: rest) stray
  | token {stray : Char} {text rest : List Char} {token : Token}
      (hlongest : Longest text rest token) (hrest : Strays rest stray) : Strays (text ++ rest) stray

section Scan

variable {c stray : Char} {line rest : List Char}

theorem map_cons_eq_error {token : Token} {tokens : Except Char (List Token)} :
    tokens.map (token :: ·) = .error c ↔ tokens = .error c := by
  cases tokens <;> simp [Except.map]

/-- The characters that start a lexeme. -/
theorem Lexeme.starts {text : List Char} {token : Token} (hlexeme : Lexeme text token)
    (htext : text <+: c :: rest) :
    c.isUpper ∨ (c.isDigit || (c == '-' && Token.startsWithDigit rest)) = true ∨
      c = ':' ∨ c = ',' := by
  cases hlexeme with
  | word hfirst hothers hspells =>
      obtain ⟨rfl, -⟩ := List.cons_prefix_cons.mp htext
      exact Or.inl hfirst
  | number hnumeral =>
      obtain ⟨first, others, rfl⟩ := hnumeral.exists_cons
      obtain ⟨rfl, left, rfl⟩ := List.cons_prefix_cons.mp htext
      obtain ⟨hfirst, hothers⟩ := isNumeral_cons_iff.mp hnumeral
      refine Or.inr (Or.inl ?_)
      -- a numeral starts with a digit, or with a sign that a digit follows
      rcases hfirst with hdigit | ⟨rfl, hne⟩
      · simp [hdigit]
      · obtain ⟨second, others, rfl⟩ := List.exists_cons_of_ne_nil hne
        simp [Token.startsWithDigit, hothers second List.mem_cons_self]
  | colon =>
      obtain ⟨rfl, -⟩ := List.cons_prefix_cons.mp htext
      exact Or.inr (Or.inr (Or.inl rfl))
  | comma =>
      obtain ⟨rfl, -⟩ := List.cons_prefix_cons.mp htext
      exact Or.inr (Or.inr (Or.inr rfl))

/-- Where no lexeme starts, the line is not cut. -/
theorem scan_of_no_lexeme (hgap : c ∉ [' ', '\t', '\r', '\x0c']) (hcomment : c ≠ '#')
    (hnone : ∀ text token, text <+: c :: rest → ¬ Lexeme text token) :
    Token.scan (c :: rest) = .error c := by
  have hmark : ¬ IsMark c := by
    rintro (hmark | rfl | rfl | rfl)
    · exact hgap (isGap_iff.mp hmark)
    · exact hcomment rfl
    · exact hnone [':'] _ (by simp) .colon
    · exact hnone [','] _ (by simp) .comma
  have hupper : ¬ c.isUpper := by
    intro hupper
    exact hnone [c] _ (by simp) (.word hupper (by simp) (Word.spells_ofLetters [c]))
  have hstarts : ¬ (c.isDigit || (c == '-' && Token.startsWithDigit rest)) = true := by
    intro hstarts
    exact hnone _ _ ((List.prefix_cons_inj c).mpr (List.takeWhile_prefix _))
      (.number (isNumeral_takeWhile_iff.mpr hstarts))
  rw [scan_of_not_isMark hmark, if_neg hupper, if_neg hstarts]

/-- A line is not cut into tokens exactly if a character strays on it. -/
theorem scan_eq_error_iff : Token.scan line = .error stray ↔ Strays line stray := by
  constructor
  · intro hscan
    fun_induction Token.scan line with
    | case1 => cases hscan
    | case2 c rest hgap ih => exact .gap (isGap_iff.mp hgap) (ih hscan)
    | case3 => cases hscan
    | case4 rest hgap hcomment ih =>
        exact .token (Longest.of_mark .colon (Or.inl rfl))
          (ih (map_cons_eq_error.mp (return_cons.symm.trans hscan)))
    | case5 rest hgap hcomment hcolon ih =>
        exact .token (Longest.of_mark .comma (Or.inr rfl))
          (ih (map_cons_eq_error.mp (return_cons.symm.trans hscan)))
    | case6 c rest hgap hcomment hcolon hcomma hupper =>
        rename_i ih
        obtain ⟨text, hlongest, htext⟩ := exists_longest_word rest hupper
        rw [← htext]
        exact .token hlongest (ih (map_cons_eq_error.mp (return_cons.symm.trans hscan)))
    | case7 c rest hgap hcomment hcolon hcomma hupper hstarts =>
        rename_i ih
        obtain ⟨text, hlongest, htext⟩ := exists_longest_number hstarts
        rw [← htext]
        exact .token hlongest (ih (map_cons_eq_error.mp (return_cons.symm.trans hscan)))
    | case8 c rest hgap hcomment hcolon hcomma hupper hstarts =>
        cases hscan
        refine .here (mt isGap_iff.mpr hgap) hcomment fun text token htext hlexeme => ?_
        -- a lexeme would start with one of the characters ruled out above
        rcases hlexeme.starts htext with hstart | hstart | hstart | hstart
        · exact hupper hstart
        · exact hstarts hstart
        · exact hcolon hstart
        · exact hcomma hstart
  · intro hstrays
    induction hstrays with
    | here hgap hcomment hnone => exact scan_of_no_lexeme hgap hcomment hnone
    | gap hgap hrest ih => rw [scan_gap (isGap_iff.mpr hgap), ih]
    | token hlongest hrest ih => rw [hlongest.scan_eq, ih, Except.map]

end Scan

/-! ## The shape of a line -/

/-- The token may stand as an operand. -/
def Token.IsOperand (token : Token) : Prop := token ≠ .colon ∧ token ≠ .comma

/-- The tokens are labels, each with a colon after it, and then nothing or a word with
operands that stand between commas. -/
inductive HasShape : List Token → Shape → Prop where
  | blank : HasShape [] ⟨[], none⟩
  | operation (operation : Word) {operands : List Token}
      (hoperands : ∀ operand ∈ operands, operand.IsOperand) :
      HasShape (.word operation :: operands.intersperse .comma) ⟨[], some (operation, operands)⟩
  | label (word : Word) {tokens : List Token} {shape : Shape} (hrest : HasShape tokens shape) :
      HasShape (.word word :: .colon :: tokens) { shape with labels := word :: shape.labels }

/-- The tokens start with an operand, and further on an operand is missing after a
comma, or a comma after an operand. -/
inductive Breaks : List Token → Cause → Prop where
  | operand {first : Token} {rest : List Token} (hfirst : first.IsOperand)
      (hrest : ∀ token ∈ rest.head?, ¬ token.IsOperand) :
      Breaks (first :: .comma :: rest) .unexpectedEnd
  | comma {first token : Token} {rest : List Token} (hfirst : first.IsOperand)
      (htoken : token ≠ .comma) : Breaks (first :: token :: rest) (.unexpectedToken token)
  | later {first : Token} {rest : List Token} {cause : Cause} (hfirst : first.IsOperand)
      (hrest : Breaks rest cause) : Breaks (first :: .comma :: rest) cause

/-- The tokens have no shape: after the labels stands something else than a word, or
after the word a comma, or its operands break off. -/
inductive Misshapen : List Token → Cause → Prop where
  | noWord {token : Token} {rest : List Token} (hword : ∀ word, token ≠ .word word) :
      Misshapen (token :: rest) .unexpectedEnd
  | noOperand (operation : Word) (rest : List Token) :
      Misshapen (.word operation :: .comma :: rest) .unexpectedEnd
  | operands (operation : Word) {tokens : List Token} {cause : Cause}
      (hbreaks : Breaks tokens cause) : Misshapen (.word operation :: tokens) cause
  | label (word : Word) {tokens : List Token} {cause : Cause} (hrest : Misshapen tokens cause) :
      Misshapen (.word word :: .colon :: tokens) cause

section Shapes

variable {first operand : Token} {tokens operands rest : List Token} {cause : Cause} {shape : Shape}

theorem moreOperands_comma (hoperand : operand.IsOperand) :
    Shape.moreOperands (.comma :: operand :: rest) = (do
      return operand :: (← Shape.moreOperands rest)) := by
  rw [Shape.moreOperands]
  · exact hoperand.1
  · exact hoperand.2

theorem isOperand_of_moreOperands (hread : Shape.moreOperands tokens = .ok operands) :
    ∀ operand ∈ operands, operand.IsOperand := by
  fun_induction Shape.moreOperands tokens generalizing operands with
  | case1 =>
      cases hread
      simp
  | case5 operand rest hcolon hcomma ih =>
      obtain ⟨others, hothers, hreturn⟩ := bind_eq_ok.mp hread
      cases hreturn
      exact List.forall_mem_cons.mpr ⟨⟨hcolon, hcomma⟩, ih hothers⟩
  | _ => cases hread

/-- What stands between separators starts with the first of it. -/
theorem exists_intersperse_cons (first : Token) (others : List Token) :
    ∃ rest, (first :: others).intersperse .comma = first :: rest := by
  cases others <;> exact ⟨_, rfl⟩

theorem moreOperands_eq_ok_iff (first : Token) :
    Shape.moreOperands tokens = .ok operands ↔
      first :: tokens = (first :: operands).intersperse .comma ∧
        ∀ operand ∈ operands, operand.IsOperand := by
  refine ⟨fun hread => ⟨moreOperands_eq_ok first hread, isOperand_of_moreOperands hread⟩, ?_⟩
  rintro ⟨htokens, hoperands⟩
  induction operands generalizing first tokens with
  | nil =>
      cases htokens
      rfl
  | cons operand others ih =>
      obtain ⟨hoperand, hothers⟩ := List.forall_mem_cons.mp hoperands
      rw [List.intersperse_cons_cons, List.cons.injEq] at htokens
      obtain ⟨-, rfl⟩ := htokens
      obtain ⟨rest, hrest⟩ := exists_intersperse_cons operand others
      rw [hrest, moreOperands_comma hoperand, ih operand hrest.symm hothers]
      rfl

theorem moreOperands_eq_error_iff (hfirst : first.IsOperand) :
    Shape.moreOperands tokens = .error cause ↔ Breaks (first :: tokens) cause := by
  constructor
  · intro hread
    fun_induction Shape.moreOperands tokens generalizing first with
    | case1 => cases hread
    | case2 rest | case3 rest | case4 =>
        cases hread
        exact .operand hfirst (by simp [Token.IsOperand])
    | case5 operand rest hcolon hcomma ih =>
        rcases bind_eq_error.mp hread with hrest | ⟨others, hothers, hreturn⟩
        · exact .later hfirst (ih ⟨hcolon, hcomma⟩ hrest)
        · cases hreturn
    | case6 token rest _ _ hnil hcons =>
        cases hread
        refine .comma hfirst ?_
        rintro rfl
        cases rest with
        | nil => exact hnil rfl rfl
        | cons operand rest => exact hcons operand rest rfl rfl
  · intro hbreaks
    generalize htokens : first :: tokens = whole at hbreaks
    induction hbreaks generalizing first tokens with
    | @operand first rest hoperand hrest =>
        cases htokens
        rcases rest with _ | ⟨_ | _ | _ | _, rest⟩
        case nil | cons.colon | cons.comma => rfl
        all_goals simp [Token.IsOperand] at hrest
    | @comma first token rest hoperand hcomma =>
        cases htokens
        cases token with
        | comma => exact absurd rfl hcomma
        | word | number | colon => rfl
    | @later first rest cause hoperand hrest ih =>
        cases htokens
        -- what comes after the comma breaks as well, so it starts with an operand
        cases hrest with
        | operand hsecond | comma hsecond | later hsecond =>
          rw [moreOperands_comma hsecond, ih hsecond rfl]
          rfl

theorem Breaks.exists_cons (hbreaks : Breaks tokens cause) :
    ∃ first rest, tokens = first :: rest ∧ first.IsOperand := by
  cases hbreaks with
  | operand hfirst | comma hfirst | later hfirst => exact ⟨_, _, rfl, hfirst⟩

/-- A token is an operand, or it separates what stands on either side. -/
theorem Token.isOperand_or (token : Token) : token.IsOperand ∨ token = .colon ∨ token = .comma := by
  cases token <;> simp [IsOperand]

theorem operands_cons (hfirst : first.IsOperand) :
    Shape.operands (first :: rest) = (do return first :: (← Shape.moreOperands rest)) := by
  rw [Shape.operands]
  · exact hfirst.1
  · exact hfirst.2

theorem operands_eq_ok_iff :
    Shape.operands tokens = .ok operands ↔
      tokens = operands.intersperse .comma ∧ ∀ operand ∈ operands, operand.IsOperand := by
  constructor
  · intro hread
    refine ⟨operands_eq_ok hread, ?_⟩
    cases tokens with
    | nil =>
        cases hread
        simp
    | cons first rest =>
        rcases first.isOperand_or with hfirst | rfl | rfl
        · rw [operands_cons hfirst] at hread
          obtain ⟨others, hothers, hreturn⟩ := bind_eq_ok.mp hread
          cases hreturn
          exact List.forall_mem_cons.mpr ⟨hfirst, isOperand_of_moreOperands hothers⟩
        all_goals cases hread
  · -- operands that are written with commas in between are cut at the commas
    rintro ⟨rfl, hoperands⟩
    cases operands with
    | nil => rfl
    | cons first others =>
        obtain ⟨hfirst, hothers⟩ := List.forall_mem_cons.mp hoperands
        obtain ⟨rest, hrest⟩ := exists_intersperse_cons first others
        rw [hrest, operands_cons hfirst, (moreOperands_eq_ok_iff first).mpr ⟨hrest.symm, hothers⟩]
        rfl

theorem operands_eq_error_iff (hfirst : first.IsOperand) :
    Shape.operands (first :: rest) = .error cause ↔ Breaks (first :: rest) cause := by
  rw [operands_cons hfirst, bind_eq_error, moreOperands_eq_error_iff hfirst]
  refine or_iff_left ?_
  rintro ⟨others, -, hreturn⟩
  cases hreturn

theorem ofTokens_operation (operation : Word) (hcolon : tokens.head? ≠ some .colon) :
    Shape.ofTokens (.word operation :: tokens) =
      (do return ⟨[], some (operation, ← Shape.operands tokens)⟩) := by
  rw [Shape.ofTokens]
  rintro rest rfl
  exact hcolon rfl

/-- The tokens of a line have at most one shape, which is found. -/
theorem shape_eq_ok_iff : Shape.ofTokens tokens = .ok shape ↔ HasShape tokens shape := by
  constructor
  · intro hread
    fun_induction Shape.ofTokens tokens generalizing shape with
    | case1 =>
        cases hread
        exact .blank
    | case2 label rest ih =>
        obtain ⟨inner, hinner, hreturn⟩ := bind_eq_ok.mp hread
        cases hreturn
        exact .label label (ih hinner)
    | case3 operation rest hcolon =>
        obtain ⟨operands, hoperands, hreturn⟩ := bind_eq_ok.mp hread
        cases hreturn
        obtain ⟨rfl, hall⟩ := operands_eq_ok_iff.mp hoperands
        exact .operation operation hall
    | case4 => cases hread
  · intro hshape
    induction hshape with
    | blank => rfl
    | @operation operation operands hoperands =>
        -- an operand is no colon, so the word is no label
        have hcolon : (operands.intersperse .comma).head? ≠ some .colon := by
          cases operands with
          | nil => simp
          | cons first others =>
              obtain ⟨rest, hrest⟩ := exists_intersperse_cons first others
              simpa [hrest] using (hoperands first List.mem_cons_self).1
        rw [ofTokens_operation operation hcolon, operands_eq_ok_iff.mpr ⟨rfl, hoperands⟩]
        rfl
    | label word hrest ih =>
        rw [Shape.ofTokens, ih]
        rfl

/-- If they have none, they are misshapen, and it is reported where. -/
theorem shape_eq_error_iff :
    Shape.ofTokens tokens = .error cause ↔ Misshapen tokens cause := by
  constructor
  · intro hread
    fun_induction Shape.ofTokens tokens with
    | case1 => cases hread
    | case2 label rest ih =>
        rcases bind_eq_error.mp hread with hrest | ⟨inner, -, hreturn⟩
        · exact .label label (ih hrest)
        · cases hreturn
    | case3 operation rest hcolon =>
        rcases bind_eq_error.mp hread with hrest | ⟨operands, -, hreturn⟩
        · cases rest with
          | nil => cases hrest
          | cons first rest =>
              -- what follows the word is an operand, a colon, which would make the word a label, or
              -- a comma
              rcases first.isOperand_or with hfirst | rfl | rfl
              · exact .operands operation ((operands_eq_error_iff hfirst).mp hrest)
              · exact absurd rfl (hcolon rest)
              · cases hrest
                exact .noOperand operation rest
        · cases hreturn
    | case4 token rest hlabel hword =>
        cases hread
        exact .noWord hword
  · intro hmisshapen
    induction hmisshapen with
    | @noWord token rest hword =>
        cases token with
        | word word => exact absurd rfl (hword word)
        | number | colon | comma => rfl
    | noOperand operation rest => rfl
    | operands operation hbreaks =>
        obtain ⟨first, rest, rfl, hfirst⟩ := hbreaks.exists_cons
        have hcolon : (first :: rest).head? ≠ some .colon := by simpa using hfirst.1
        rw [ofTokens_operation operation hcolon, (operands_eq_error_iff hfirst).mpr hbreaks]
        rfl
    | label word hrest ih =>
        rw [Shape.ofTokens, ih]
        rfl

end Shapes

/-! ## Operations and their operands -/

/-- The number of operands that a word takes as an operation. -/
def Word.arity? : Word → Option ℕ
  | .plain _ => some 0
  | .unary _ | .jump _ => some 1
  | .move => some 2
  | .register _ | .name _ => none

/-- The operation takes the token as its operand at this place. -/
def Takes : Word → ℕ → Token → Prop
  | .unary _, 0, token | .move, 0, token => ∃ source, IsSource token source
  | .move, 1, token => ∃ target, token = .word (.register target)
  | .jump condition, 0, token => ∃ draft, IsOperation [.word (.jump condition), token] draft
  | _, _, _ => False

/-- The token is the first of the operands that the operation does not take. -/
def FirstRefused (operation : Word) (operands : List Token) (operand : Token) : Prop :=
  ∃ place, operands[place]? = some operand ∧ ¬ Takes operation place operand ∧
    ∀ earlier < place, ∀ other, operands[earlier]? = some other → Takes operation earlier other

/-- The word with these operands is not an operation: it is unknown, or takes another
number of operands, or refuses one of them. -/
inductive Misapplied : Word → List Token → Cause → Prop where
  | unknown {word : Word} {operands : List Token} (hword : word.arity? = none) :
      Misapplied word operands (.unknownInstruction word)
  | arity {operation : Word} {operands : List Token} {expected : ℕ}
      (harity : operation.arity? = some expected) (hcount : operands.length ≠ expected) :
      Misapplied operation operands (.arity operation expected operands.length)
  | operand {operation : Word} {operands : List Token} {operand : Token}
      (harity : operation.arity? = some operands.length)
      (hrefused : FirstRefused operation operands operand) :
      Misapplied operation operands (.invalidOperand operation operand)

section Operations

variable {operation : Word} {condition : Condition} {token operand first second : Token}
  {operands : List Token} {cause : Cause} {expected : ℕ}

/-- What can go wrong in one way only goes wrong exactly where it does not succeed. -/
theorem eq_error_iff_of_ok {ε α : Type} {result : Except ε α} {only broken : ε} {post : α → Prop}
    (hok : ∀ value, result = .ok value ↔ post value)
    (honly : ∀ other, result = .error other → other = only) :
    result = .error broken ↔ (¬ ∃ value, post value) ∧ broken = only := by
  cases result with
  | error other => simp [← hok, honly other rfl, eq_comm]
  | ok value => simp [← hok]

section Operands

variable (hnumeral : ∀ numeral, token = .number numeral → IsNumeral numeral)
include hnumeral

theorem readSource_eq_error_iff :
    readSource operation token = .error cause ↔
      (¬ ∃ source, IsSource token source) ∧ cause = .invalidOperand operation token := by
  refine eq_error_iff_of_ok (fun source => readSource_eq_ok_iff hnumeral) fun other hread => ?_
  unfold readSource at hread
  split at hread
  · split at hread <;> cases hread
    rfl
  all_goals cases hread
  rfl

theorem readJump_eq_error_iff :
    readJump condition token = .error cause ↔
      (¬ ∃ draft, IsOperation [.word (.jump condition), token] draft) ∧
        cause = .invalidOperand (.jump condition) token := by
  refine eq_error_iff_of_ok (fun draft => readJump_eq_ok_iff hnumeral) fun other hread => ?_
  unfold readJump at hread
  split at hread
  · split at hread <;> cases hread
    rfl
  · split at hread <;> cases hread
    rfl
  · cases hread
    rfl

end Operands

theorem readTarget_eq_error_iff :
    readTarget token = .error cause ↔
      (¬ ∃ target, token = .word (.register target)) ∧ cause = .invalidOperand .move token := by
  refine eq_error_iff_of_ok (fun target => readTarget_eq_ok_iff) fun other hread => ?_
  unfold readTarget at hread
  split at hread <;> cases hread
  rfl

theorem firstRefused_singleton_iff :
    FirstRefused operation [token] operand ↔ operand = token ∧ ¬ Takes operation 0 token := by
  constructor
  · rintro ⟨_ | place, hplace, hnot, -⟩
    · cases hplace
      exact ⟨rfl, hnot⟩
    · cases hplace
  · rintro ⟨rfl, hnot⟩
    exact ⟨0, rfl, hnot, by simp⟩

theorem firstRefused_pair_iff :
    FirstRefused operation [first, second] operand ↔
      operand = first ∧ ¬ Takes operation 0 first ∨
        Takes operation 0 first ∧ operand = second ∧ ¬ Takes operation 1 second := by
  constructor
  · rintro ⟨_ | _ | place, hplace, hnot, hearlier⟩
    · cases hplace
      exact Or.inl ⟨rfl, hnot⟩
    · cases hplace
      exact Or.inr ⟨hearlier 0 Nat.zero_lt_one first rfl, rfl, hnot⟩
    · cases hplace
  · rintro (⟨rfl, hnot⟩ | ⟨hfirst, rfl, hnot⟩)
    · exact ⟨0, rfl, hnot, by simp⟩
    · refine ⟨1, rfl, hnot, fun earlier hearlier other hother => ?_⟩
      obtain rfl := Nat.lt_one_iff.mp hearlier
      cases hother
      exact hfirst

theorem ofOperation_of_unknown (hword : operation.arity? = none) :
    Draft.ofOperation operation operands = .error (.unknownInstruction operation) := by
  cases operation with
  | register | name => rfl
  | plain | unary | move | jump => cases hword

theorem ofOperation_of_arity_ne (harity : operation.arity? = some expected)
    (hcount : operands.length ≠ expected) :
    Draft.ofOperation operation operands = .error (.arity operation expected operands.length) := by
  -- no pattern of the operation fits another number of operands
  cases operation with
  | plain =>
      cases harity
      rw [Draft.ofOperation]
      rintro rfl
      exact hcount rfl
  | unary | jump =>
      cases harity
      rw [Draft.ofOperation]
      rintro token rfl
      exact hcount rfl
  | move =>
      cases harity
      rw [Draft.ofOperation]
      rintro source target rfl
      exact hcount rfl
  | register | name => cases harity

/-- With as many operands as it takes, an operation is read unless it refuses one. -/
theorem ofOperation_eq_error_iff_of_arity
    (hnumerals : ∀ numeral, .number numeral ∈ operands → IsNumeral numeral)
    (harity : operation.arity? = some operands.length) :
    Draft.ofOperation operation operands = .error cause ↔
      ∃ operand, FirstRefused operation operands operand ∧
        cause = .invalidOperand operation operand := by
  have hnumeral : ∀ token ∈ operands, ∀ numeral, token = .number numeral → IsNumeral numeral := by
    rintro token hmem numeral rfl
    exact hnumerals numeral hmem
  cases operation with
  | plain operation =>
      obtain rfl := List.length_eq_zero_iff.mp (Option.some.inj harity).symm
      simp [Draft.ofOperation, FirstRefused]
  | unary operation =>
      obtain ⟨token, rfl⟩ := List.length_eq_one_iff.mp (Option.some.inj harity).symm
      simp [Draft.ofOperation, bind_eq_error, firstRefused_singleton_iff, Takes,
        readSource_eq_error_iff (hnumeral token (by simp)), pure, Except.pure]
  | jump condition =>
      obtain ⟨token, rfl⟩ := List.length_eq_one_iff.mp (Option.some.inj harity).symm
      simp [Draft.ofOperation, firstRefused_singleton_iff, Takes,
        readJump_eq_error_iff (hnumeral token (by simp))]
  | move =>
      obtain ⟨source, target, rfl⟩ := List.length_eq_two.mp (Option.some.inj harity).symm
      -- the source is read first, and the target only after it
      have hsource := hnumeral source (by simp)
      constructor
      · intro hread
        rcases bind_eq_error.mp hread with hfirst | ⟨value, hvalue, hrest⟩
        · obtain ⟨hnot, rfl⟩ := (readSource_eq_error_iff hsource).mp hfirst
          exact ⟨source, firstRefused_pair_iff.mpr (Or.inl ⟨rfl, hnot⟩), rfl⟩
        · have htakes : Takes .move 0 source := ⟨value, (readSource_eq_ok_iff hsource).mp hvalue⟩
          rcases bind_eq_error.mp hrest with hsecond | ⟨register, -, hreturn⟩
          · obtain ⟨hnot, rfl⟩ := readTarget_eq_error_iff.mp hsecond
            exact ⟨target, firstRefused_pair_iff.mpr (Or.inr ⟨htakes, rfl, hnot⟩), rfl⟩
          · cases hreturn
      · rintro ⟨operand, hrefused, rfl⟩
        rcases firstRefused_pair_iff.mp hrefused with ⟨rfl, hnot⟩ | ⟨⟨value, hvalue⟩, rfl, hnot⟩
        · exact bind_eq_error.mpr (Or.inl ((readSource_eq_error_iff hsource).mpr ⟨hnot, rfl⟩))
        · have hsecond := readTarget_eq_error_iff.mpr ⟨hnot, rfl⟩
          exact bind_eq_error.mpr (Or.inr ⟨value, (readSource_eq_ok_iff hsource).mpr hvalue,
            bind_eq_error.mpr (Or.inl hsecond)⟩)
  | register | name => cases harity

/-- A word with its operands is read unless it is misapplied. -/
theorem ofOperation_eq_error_iff
    (hnumerals : ∀ numeral, .number numeral ∈ operands → IsNumeral numeral) :
    Draft.ofOperation operation operands = .error cause ↔ Misapplied operation operands cause := by
  constructor
  · intro hread
    cases harity : operation.arity? with
    | none =>
        rw [ofOperation_of_unknown harity] at hread
        cases hread
        exact .unknown harity
    | some expected =>
        -- the number of operands is judged before any of them
        by_cases hcount : operands.length = expected
        · rw [← hcount] at harity
          obtain ⟨operand, hrefused, rfl⟩ :=
            (ofOperation_eq_error_iff_of_arity hnumerals harity).mp hread
          exact .operand harity hrefused
        · rw [ofOperation_of_arity_ne harity hcount] at hread
          cases hread
          exact .arity harity hcount
  · intro hmisapplied
    cases hmisapplied with
    | unknown hword => exact ofOperation_of_unknown hword
    | arity harity hcount => exact ofOperation_of_arity_ne harity hcount
    | operand harity hrefused =>
        exact (ofOperation_eq_error_iff_of_arity hnumerals harity).mpr ⟨_, hrefused, rfl⟩

end Operations

/-! ## The first fault of a line -/

/-- The first thing that is wrong with the tokens of a line.  The shape is judged first,
then the labels from left to right, then the operation. -/
inductive IsFault (tokens : List Token) : Cause → Prop where
  | shape {cause : Cause} (hmisshapen : Misshapen tokens cause) : IsFault tokens cause
  | label {shape : Shape} {earlier later : List Word} {register : Register}
      (hshape : HasShape tokens shape)
      (hlabels : shape.labels = earlier ++ .register register :: later)
      (hearlier : ∀ word ∈ earlier, IsLabel word) : IsFault tokens (.registerAsLabel register)
  | operation {shape : Shape} {operation : Word} {operands : List Token} {cause : Cause}
      (hshape : HasShape tokens shape) (hlabels : ∀ word ∈ shape.labels, IsLabel word)
      (hoperation : shape.operation = some (operation, operands))
      (hmisapplied : Misapplied operation operands cause) : IsFault tokens cause

section Lines

variable {line : List Char} {tokens operands : List Token} {operation : Word} {shape : Shape}
  {cause : Cause}

theorem readLabel_eq_error_iff {word : Word} :
    readLabel word = .error cause ↔
      ∃ register, word = .register register ∧ cause = .registerAsLabel register := by
  cases word <;> simp [readLabel, eq_comm]

theorem exists_readLabel_iff {word : Word} :
    (∃ label, readLabel word = .ok label) ↔ IsLabel word := by
  simp [readLabel_eq_ok_iff]

theorem HasShape.mem_of_mem_operands (hshape : HasShape tokens shape)
    (hoperation : shape.operation = some (operation, operands)) {token : Token}
    (hmem : token ∈ operands) : token ∈ tokens := by
  induction hshape with
  | blank => cases hoperation
  | operation =>
      cases hoperation
      exact List.mem_cons_of_mem _ (mem_intersperse hmem)
  | label word hrest ih => exact List.mem_cons_of_mem _ (List.mem_cons_of_mem _ (ih hoperation))

/-- After the shape, the labels are judged, and the operation if they are labels. -/
theorem ofShape_eq_error_iff :
    Statement.ofShape shape = .error cause ↔
      shape.labels.mapM readLabel = .error cause ∨
        (∀ word ∈ shape.labels, IsLabel word) ∧ ∃ operation operands,
          shape.operation = some (operation, operands) ∧
            Draft.ofOperation operation operands = .error cause := by
  -- the labels are read exactly if each of them is one
  have hlabels : (∃ labels, shape.labels.mapM readLabel = .ok labels) ↔
      ∀ word ∈ shape.labels, IsLabel word := by
    simp only [exists_mapM_eq_ok_iff, exists_readLabel_iff]
  rw [Statement.ofShape, bind_eq_error, ← hlabels]
  constructor
  · rintro (hread | ⟨labels, hread, hrest⟩)
    · exact Or.inl hread
    · refine Or.inr ⟨⟨labels, hread⟩, ?_⟩
      cases hoperation : shape.operation with
      | none =>
          simp only [hoperation] at hrest
          cases hrest
      | some operation =>
          simp only [hoperation] at hrest
          rcases bind_eq_error.mp hrest with hbroken | ⟨draft, -, hreturn⟩
          · exact ⟨_, _, rfl, hbroken⟩
          · cases hreturn
  · rintro (hread | ⟨⟨labels, hread⟩, operation, operands, hoperation, hbroken⟩)
    · exact Or.inl hread
    · refine Or.inr ⟨labels, hread, ?_⟩
      simp only [hoperation]
      exact bind_eq_error.mpr (Or.inl hbroken)

/-- The tokens of a line are not read exactly if there is a fault, and it is reported. -/
theorem ofTokens_eq_error_iff (hlexes : Lexes line tokens) :
    Statement.ofTokens tokens = .error cause ↔ IsFault tokens cause := by
  -- what the tokens write as numbers comes from the scanner
  have hnumerals : ∀ {shape operation operands}, HasShape tokens shape →
      shape.operation = some (operation, operands) →
      ∀ numeral, .number numeral ∈ operands → IsNumeral numeral :=
    fun hshape hoperation numeral hmem =>
      hlexes.isNumeral numeral (hshape.mem_of_mem_operands hoperation hmem)
  rw [Statement.ofTokens, bind_eq_error, shape_eq_error_iff]
  simp only [shape_eq_ok_iff, ofShape_eq_error_iff, mapM_eq_error_iff, exists_readLabel_iff,
    readLabel_eq_error_iff]
  constructor
  · rintro (hmisshapen | ⟨shape, hshape,
      ⟨earlier, word, later, hlabels, hearlier, register, rfl, rfl⟩ |
      ⟨hlabels, operation, operands, hoperation, hbroken⟩⟩)
    · exact .shape hmisshapen
    · exact .label hshape hlabels hearlier
    · exact .operation hshape hlabels hoperation
        ((ofOperation_eq_error_iff (hnumerals hshape hoperation)).mp hbroken)
  · intro hfault
    cases hfault with
    | shape hmisshapen => exact Or.inl hmisshapen
    | label hshape hlabels hearlier =>
        exact Or.inr ⟨_, hshape, Or.inl ⟨_, _, _, hlabels, hearlier, _, rfl, rfl⟩⟩
    | operation hshape hlabels hoperation hmisapplied =>
        exact Or.inr ⟨_, hshape, Or.inr ⟨hlabels, _, _, hoperation,
          (ofOperation_eq_error_iff (hnumerals hshape hoperation)).mpr hmisapplied⟩⟩

end Lines

end NodeGrid.Assembly
