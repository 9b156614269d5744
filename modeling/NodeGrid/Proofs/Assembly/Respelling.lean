import NodeGrid.Proofs.Assembly.RoundTrip

/-!
# Words written anew

A line can be written anew with other tokens in it (`respell`).  A token is written in place
of the text of the old one, unless this text makes it up already.  Blanks and comments stay
as they are.

If words take the place of words, the new line has the new tokens (`scan_respell`).  What
a token stops at does not continue the new token either, since the rest of the line starts
as before, or with a letter where there was a letter (`StartsAlike`).

Tokens are told in upper case and taken out of the text as it stands.  This is the same
(`ofText_dropWhile`), because a form of several characters is made of letters, or it holds
a character that starts no token (`ofChar_cases`).
-/

namespace NodeGrid.Assembly

open Text.Uppercase

/-! ## Writing a line anew -/

/-- Whether the character can stand behind the first one of the token. -/
def Token.continues : Token → Char → Bool
  | .word _, c => continuesWord c
  | .number _, c => c.isDigit
  | .colon, _ => false
  | .comma, _ => false

/-- Whether the upper-case form of the character has only characters of this kind. -/
def hasForm (isPart : Char → Bool) (c : Char) : Bool :=
  (ofChar c).all isPart

/-- What is written for the token in place of the text.  A text that makes up the token is
kept. -/
def rewrite (text : List Char) (token : Token) : List Char :=
  if ofText text = token.written then text else token.written

/-- The line with these tokens written in place of its own. -/
def respell : List Char → List Token → List Char
  | line, [] => line
  | [], _ :: _ => []
  | c :: rest, token :: others =>
    if hasForm Token.isGap c then
      c :: respell rest (token :: others)
    else
      rewrite (c :: rest.takeWhile (hasForm token.continues)) token ++
        respell (rest.dropWhile (hasForm token.continues)) others
termination_by line => line.length
decreasing_by
  · exact Nat.lt_succ_self _
  · exact Nat.lt_succ_of_le (List.dropWhile_suffix _).length_le

/-- The new token is the old one, or both are words. -/
inductive Respells : Token → Token → Prop where
  | same (token : Token) : Respells token token
  | word (old : Word) {word : Word} (hlexeme : Lexeme word.letters (.word word)) :
      Respells (.word old) (.word word)

/-! ## Forms of characters -/

/-- A character that stands in no form of several characters, or a form without the
characters that separate tokens. -/
theorem ofChar_cases (c : Char) :
    (∃ d, ofChar c = [d]) ∨ ∀ d ∈ ofChar c, d.isUpper ∨ 128 ≤ d.toNat := by
  have hexpansions : ∀ expansion ∈ expansions, ∀ code ∈ expansion.2,
      (Char.ofNat code).isUpper ∨ 128 ≤ (Char.ofNat code).toNat := by decide +kernel
  unfold ofChar
  split
  · exact Or.inl ⟨_, rfl⟩
  · unfold ofNonAscii
    split
    · exact Or.inl ⟨_, rfl⟩
    · split
      · rename_i code form hfind
        refine Or.inr fun d hd => ?_
        obtain ⟨inner, hinner, rfl⟩ := List.mem_map.mp hd
        exact hexpansions _ (List.mem_of_find?_eq_some hfind) inner hinner
      · exact Or.inl ⟨c, rfl⟩

/-- A form is a single character, or it holds none that separates tokens. -/
theorem ofChar_cons_cases {c first : Char} {more : List Char} (hform : ofChar c = first :: more) :
    more = [] ∨ ∀ d ∈ first :: more, d.isUpper ∨ 128 ≤ d.toNat := by
  rcases ofChar_cases c with ⟨d, hd⟩ | hletters
  · rw [hform] at hd
    cases hd
    exact Or.inl rfl
  · exact Or.inr (hform ▸ hletters)

/-- A form that is not made of such characters has a first one. -/
theorem exists_form {isPart : Char → Bool} {c : Char} (hform : hasForm isPart c = false) :
    ∃ first more, ofChar c = first :: more := by
  refine List.exists_cons_of_ne_nil fun hnil => ?_
  simp [hasForm, hnil] at hform

theorem not_continuesWord_of_nonAscii {c : Char} (hcode : 128 ≤ c.toNat) :
    Token.continuesWord c = false := by
  have h9 : ('9' : Char).val.toNat = 57 := rfl
  have hZ : ('Z' : Char).val.toNat = 90 := rfl
  have hupper : c.isUpper = decide ('A'.val ≤ c.val ∧ c.val ≤ 'Z'.val) := rfl
  rw [Char.toNat] at hcode
  simp only [Token.continuesWord, hupper, Char.isDigit, Bool.or_eq_false_iff,
    Bool.and_eq_false_iff, decide_eq_false_iff_not, UInt32.le_iff_toNat_le, ge_iff_le]
  omega

theorem not_isGap_of_form {c : Char} (hform : c.isUpper ∨ 128 ≤ c.toNat) :
    Token.isGap c = false := by
  cases hgap : Token.isGap c with
  | false => rfl
  | true =>
      rw [isGap_iff] at hgap
      simp only [List.mem_cons, List.not_mem_nil, or_false] at hgap
      rcases hgap with rfl | rfl | rfl | rfl <;> exact absurd hform (by decide)

/-- A character beyond ASCII starts no token. -/
theorem scan_nonAscii {c : Char} (hcode : 128 ≤ c.toNat) (rest : List Char) :
    Token.scan (c :: rest) = .error c := by
  have hne : ∀ d : Char, d.toNat < 128 → c ≠ d := by
    rintro d hd rfl
    exact absurd hcode (Nat.not_le_of_lt hd)
  have hmark : ¬ IsMark c := by
    simp [isMark_iff, hne]
  obtain ⟨hupper, hdigit⟩ := Bool.or_eq_false_iff.mp (not_continuesWord_of_nonAscii hcode)
  rw [scan_of_not_isMark hmark]
  simp [hupper, hdigit, hne]

/-- Part of a form that carries on a word carries it on to its end, or no line goes on
this way. -/
theorem all_of_scan_dropWhile {form rest : List Char} {tokens : List Token}
    (hform : ∀ d ∈ form, d.isUpper ∨ 128 ≤ d.toNat)
    (hscan : Token.scan ((form ++ rest).dropWhile Token.continuesWord) = .ok tokens) :
    ∀ d ∈ form, Token.continuesWord d = true := by
  induction form with
  | nil => simp
  | cons d form ih =>
      obtain ⟨hd, hothers⟩ := List.forall_mem_cons.mp hform
      rcases hd with hupper | hcode
      · have hcontinues : Token.continuesWord d = true := continuesWord_iff.mpr (Or.inl hupper)
        rw [List.cons_append, List.dropWhile_cons_of_pos hcontinues] at hscan
        exact List.forall_mem_cons.mpr ⟨hcontinues, ih hothers hscan⟩
      · have hstop := not_continuesWord_of_nonAscii hcode
        rw [List.cons_append, List.dropWhile_cons_of_neg (by simp [hstop]),
          scan_nonAscii hcode] at hscan
        cases hscan

/-- A form that does not carry on a token starts with a character that does not, or no
line goes on this way. -/
theorem not_continues_head {token : Token} {c first : Char} {more rest : List Char}
    {tokens : List Token} (hform : ofChar c = first :: more)
    (hall : hasForm token.continues c = false)
    (hscan : Token.scan ((ofChar c ++ rest).dropWhile token.continues) = .ok tokens) :
    token.continues first = false := by
  rw [hasForm] at hall
  rw [hform] at hall hscan
  -- a character stands for itself, or for letters that a word can go on with
  rcases ofChar_cons_cases hform with rfl | hletters
  · simpa using hall
  · have hfirst := hletters first List.mem_cons_self
    cases token with
    | word word =>
        have hcontinues : (first :: more).all Token.continuesWord = true :=
          List.all_eq_true.mpr (all_of_scan_dropWhile hletters hscan)
        exact absurd (hall.symm.trans hcontinues) (by decide)
    | number numeral =>
        cases hdigit : first.isDigit with
        | false => exact hdigit
        | true =>
            rcases hfirst with hupper | hcode
            · exact absurd hupper (by simp [not_isUpper_of_isDigit hdigit])
            · simpa [Token.continuesWord, hdigit] using not_continuesWord_of_nonAscii hcode
    | colon => rfl
    | comma => rfl

/-- Behind a token, as much of the text is taken out as in upper case. -/
theorem ofText_dropWhile {token : Token} {text : List Char} {tokens : List Token}
    (hscan : Token.scan ((ofText text).dropWhile token.continues) = .ok tokens) :
    ofText (text.dropWhile (hasForm token.continues)) =
      (ofText text).dropWhile token.continues := by
  induction text with
  | nil => rfl
  | cons c text ih =>
      rw [ofText_cons] at hscan ⊢
      cases hall : hasForm token.continues c with
      | true =>
          have hform : ∀ d ∈ ofChar c, token.continues d = true := List.all_eq_true.mp hall
          rw [List.dropWhile_append_of_pos hform] at hscan ⊢
          rw [List.dropWhile_cons_of_pos hall, ih hscan]
      | false =>
          obtain ⟨first, more, hform⟩ := exists_form hall
          have hfirst := not_continues_head hform hall hscan
          rw [List.dropWhile_cons_of_neg (by simp [hall]), ofText_cons, hform, List.cons_append,
            List.dropWhile_cons_of_neg (by simp [hfirst])]

/-! ## The tokens of a line -/

section Tokens

variable {token : Token} {text rest : List Char}

/-- A lexeme is the longest one if nothing behind it carries it on. -/
theorem longest_iff : Longest text rest token ↔
    Lexeme text token ∧ ∀ c, rest.head? = some c → token.continues c = false := by
  have hsplit : ∀ hlexeme : Lexeme text token,
      Longest text rest token ↔ ∀ c, rest.head? = some c → token.continues c = false := by
    intro hlexeme
    cases hlexeme with
    | @word first others word hfirst hothers hspells =>
        obtain rfl := Word.spells_iff.mp hspells
        exact longest_word_iff hfirst fun d hd => continuesWord_iff.mpr (hothers d hd)
    | number hnumeral => exact longest_number_iff hnumeral
    | colon => exact iff_of_true (Longest.of_mark .colon (Or.inl rfl)) fun _ _ => rfl
    | comma => exact iff_of_true (Longest.of_mark .comma (Or.inr rfl)) fun _ _ => rfl
  exact ⟨fun hlongest => ⟨hlongest.lexeme, (hsplit hlongest.lexeme).mp hlongest⟩,
    fun h => (hsplit h.1).mpr h.2⟩

/-- The characters of a lexeme carry it on. -/
theorem Lexeme.continues {c : Char} {others : List Char} (hlexeme : Lexeme (c :: others) token) :
    ∀ d ∈ others, token.continues d = true := by
  cases hlexeme with
  | word hfirst hothers hspells => exact fun d hd => continuesWord_iff.mpr (hothers d hd)
  | number hnumeral => exact (isNumeral_cons_iff.mp hnumeral).2
  | colon | comma => simp

/-- A token is written with the letters that it was told by. -/
theorem Lexeme.written_eq (hlexeme : Lexeme text token) : token.written = text := by
  cases hlexeme with
  | word hfirst hothers hspells => exact hspells.letters_eq
  | number hnumeral => rfl
  | colon => rfl
  | comma => rfl

theorem Lexes.lexeme {line : List Char} {tokens : List Token} (hlexes : Lexes line tokens) :
    ∀ token ∈ tokens, Lexeme token.written token := by
  induction hlexes with
  | nothing | comment text => simp
  | gap hgap hrest ih => exact ih
  | token hlongest hrest ih =>
      refine List.forall_mem_cons.mpr ⟨?_, ih⟩
      rw [hlongest.lexeme.written_eq]
      exact hlongest.lexeme

/-- A line that starts with neither a gap nor a comment starts with a token. -/
theorem scan_cons_eq_ok {c : Char} {tokens : List Token} (hgap : Token.isGap c = false)
    (hscan : Token.scan (c :: rest) = .ok tokens) :
    tokens = [] ∨ ∃ token others, tokens = token :: others ∧
      Lexeme (c :: rest.takeWhile token.continues) token ∧
      Token.scan (rest.dropWhile token.continues) = .ok others := by
  have hlexes := scan_eq_ok_iff.mp hscan
  -- the line is taken apart by its tokens, and not by its characters
  generalize hline : c :: rest = line at hlexes
  cases hlexes with
  | nothing => cases hline
  | gap hmem hrest =>
      cases hline
      exact absurd (hgap.symm.trans (isGap_iff.mpr hmem)) (by decide)
  | comment => exact Or.inl rfl
  | @token text rest' token others hlongest hrest =>
      obtain ⟨hlexeme, hstops⟩ := longest_iff.mp hlongest
      obtain ⟨first, more, rfl⟩ := List.exists_cons_of_ne_nil hlexeme.ne_nil
      rw [List.cons_append] at hline
      obtain ⟨rfl, rfl⟩ := List.cons.inj hline
      obtain ⟨htake, hdrop⟩ := takeWhile_append_of_stops hlexeme.continues hstops
      exact Or.inr ⟨token, others, rfl, by rwa [htake], by rw [hdrop]; exact hrest.scan⟩

/-- A token that starts with a letter is a word. -/
theorem Lexeme.exists_word {c : Char} {others : List Char} (hlexeme : Lexeme (c :: others) token)
    (hupper : c.isUpper) : ∃ word, token = .word word := by
  cases hlexeme with
  | word hfirst hothers hspells => exact ⟨_, rfl⟩
  | number hnumeral =>
      have hstarts := (isNumeral_cons_iff.mp hnumeral).1.imp_right And.left
      exact absurd hupper (by simp [not_isUpper_of_starts hstarts])
  | colon => exact absurd hupper (by decide)
  | comma => exact absurd hupper (by decide)

end Tokens

/-- The first token of a line, taken out of the text as it stands. -/
structure FirstToken (c : Char) (rest : List Char) (token : Token) (others : List Token) :
    Prop where
  lexeme : ∃ first more, (ofText (c :: rest)).head? = some first ∧ Lexeme (first :: more) token
  scan_rest : Token.scan (ofText (rest.dropWhile (hasForm token.continues))) = .ok others
  stops : ∀ d, (ofText (rest.dropWhile (hasForm token.continues))).head? = some d →
    token.continues d = false

/-- A line starts with a token, if it is not at its end and starts with no gap. -/
theorem firstToken_of_scan {c : Char} {rest : List Char} {token : Token} {others : List Token}
    (hgap : hasForm Token.isGap c = false)
    (hscan : Token.scan (ofText (c :: rest)) = .ok (token :: others)) :
    FirstToken c rest token others := by
  rw [ofText_cons] at hscan
  obtain ⟨first, more, hform⟩ := exists_form hgap
  have hfirst : Token.isGap first = false := by
    rcases ofChar_cons_cases hform with rfl | hletters
    · simpa [hasForm, hform] using hgap
    · exact not_isGap_of_form (hletters first List.mem_cons_self)
  rw [hform, List.cons_append] at hscan
  rcases scan_cons_eq_ok hfirst hscan with hnil | ⟨_, _, hcons, hlexeme, hrest⟩
  · cases hnil
  cases hcons
  -- all letters of a form belong to the same token
  have hmore : ∀ d ∈ more, token.continues d = true := by
    rcases ofChar_cons_cases hform with rfl | hletters
    · simp
    · obtain ⟨hletter, hothers⟩ := List.forall_mem_cons.mp hletters
      rcases hletter with hupper | hcode
      · obtain ⟨word, rfl⟩ := hlexeme.exists_word hupper
        exact all_of_scan_dropWhile hothers hrest
      · rw [scan_nonAscii hcode] at hscan
        cases hscan
  rw [List.dropWhile_append_of_pos hmore] at hrest
  have hdrop := ofText_dropWhile hrest
  refine ⟨⟨first, _, by rw [ofText_cons, hform]; rfl, hlexeme⟩, by rw [hdrop, hrest], ?_⟩
  rw [hdrop]
  exact head?_dropWhile _

/-! ## The tokens of the new line -/

/-- The other text starts with the same character, or both start with a letter. -/
def StartsAlike (text other : List Char) : Prop :=
  ∀ d, other.head? = some d → text.head? = some d ∨
    d.isUpper ∧ ∃ c, text.head? = some c ∧ c.isUpper

theorem StartsAlike.append {text other : List Char} (halike : StartsAlike text other)
    (form : List Char) : StartsAlike (form ++ text) (form ++ other) := by
  cases form with
  | nil => exact halike
  | cons c form => exact fun d hd => Or.inl hd

theorem Respells.continues_eq {token new : Token} (hnew : Respells token new) :
    new.continues = token.continues := by
  cases hnew <;> rfl

/-- What stops a token still stops the one in its place. -/
theorem StartsAlike.stops {text other : List Char} {token new : Token}
    (halike : StartsAlike text other) (hnew : Respells token new)
    (hstops : ∀ c, text.head? = some c → token.continues c = false) :
    ∀ c, other.head? = some c → new.continues c = false := by
  intro d hd
  rw [hnew.continues_eq]
  rcases halike d hd with hsame | ⟨hupper, c, hc, hletter⟩
  · exact hstops d hsame
  · cases token with
    | word word =>
        have hcontinues : Token.continuesWord c = true := continuesWord_iff.mpr (Or.inl hletter)
        exact absurd (hcontinues.symm.trans (hstops c hc)) (by decide)
    | number numeral =>
        cases hdigit : d.isDigit with
        | false => exact hdigit
        | true => exact absurd hupper (by simp [not_isUpper_of_isDigit hdigit])
    | colon => rfl
    | comma => rfl

/-- The new token is spelled as it is written, and starts as the old one did. -/
theorem Respells.exists_lexeme {first : Char} {more : List Char} {token new : Token}
    (hnew : Respells token new) (hlexeme : Lexeme (first :: more) token) :
    ∃ c others, new.written = c :: others ∧ Lexeme (c :: others) new ∧
      (c = first ∨ c.isUpper ∧ first.isUpper) := by
  cases hnew with
  | same => exact ⟨first, more, hlexeme.written_eq, hlexeme, Or.inl rfl⟩
  | @word old word hword =>
      obtain ⟨c, others, hletters⟩ := List.exists_cons_of_ne_nil hword.ne_nil
      rw [hletters] at hword
      refine ⟨c, others, hletters, hword, Or.inr ?_⟩
      cases hword with
      | word hfirst _ _ =>
          cases hlexeme with
          | word hletter _ _ => exact ⟨hfirst, hletter⟩

theorem ofText_rewrite {token : Token} (hwritten : ofText token.written = token.written)
    (text : List Char) : ofText (rewrite text token) = token.written := by
  unfold rewrite
  split
  · assumption
  · exact hwritten

/-- Gaps in front of a line are not told. -/
theorem scan_gaps {gaps : List Char} (hgaps : ∀ c ∈ gaps, Token.isGap c = true)
    (rest : List Char) : Token.scan (gaps ++ rest) = Token.scan rest := by
  induction gaps with
  | nil => rfl
  | cons c gaps ih =>
      obtain ⟨hgap, hothers⟩ := List.forall_mem_cons.mp hgaps
      rw [List.cons_append, scan_gap hgap, ih hothers]

/-- The new line has the new tokens. -/
theorem scan_respell {line : List Char} {tokens new : List Token}
    (hscan : Token.scan (ofText line) = .ok tokens) (hnew : List.Forall₂ Respells tokens new) :
    Token.scan (ofText (respell line new)) = .ok new ∧
      StartsAlike (ofText line) (ofText (respell line new)) := by
  fun_induction respell line new generalizing tokens with
  | case1 line =>
      cases hnew
      exact ⟨hscan, fun d hd => Or.inl hd⟩
  | case2 token others =>
      simp only [ofText_nil, Token.scan] at hscan
      cases hscan
      cases hnew
  | case3 c rest token others hgap ih =>
      have hform : ∀ d ∈ ofChar c, Token.isGap d = true := List.all_eq_true.mp hgap
      rw [ofText_cons, scan_gaps hform] at hscan
      obtain ⟨htokens, halike⟩ := ih hscan hnew
      rw [ofText_cons, ofText_cons, scan_gaps hform]
      exact ⟨htokens, halike.append _⟩
  | case4 c rest token others hgap ih =>
      obtain ⟨old, olds, hold, holds, rfl⟩ := List.forall₂_cons_right_iff.mp hnew
      obtain ⟨⟨first, more, hhead, hlexeme⟩, hrest, hstops⟩ :=
        firstToken_of_scan (by simpa using hgap) hscan
      rw [← hold.continues_eq] at hrest hstops
      obtain ⟨htokens, halike⟩ := ih hrest holds
      obtain ⟨letter, letters, hwritten, hnewLexeme, hsame⟩ := hold.exists_lexeme hlexeme
      -- the new token ends where the old one did, since what follows starts alike
      have hstopsNew := halike.stops hold (by rwa [← hold.continues_eq])
      have htext : ofText token.written = token.written := by
        rw [hwritten]
        exact ofText_of_isWritten hnewLexeme.isWritten
      rw [ofText_append, ofText_rewrite htext, hwritten]
      constructor
      · rw [(longest_iff.mpr ⟨hnewLexeme, hstopsNew⟩).scan_eq, htokens]
        rfl
      · intro d hd
        cases hd
        rcases hsame with rfl | ⟨hletter, hfirst⟩
        · exact Or.inl hhead
        · exact Or.inr ⟨hletter, first, hhead, hfirst⟩

/-- The new line has no characters but those of the line and of the new tokens. -/
theorem mem_respell {line : List Char} {new : List Token} {c : Char} (hmem : c ∈ respell line new) :
    c ∈ line ∨ ∃ token ∈ new, c ∈ token.written := by
  fun_induction respell line new with
  | case1 line => exact Or.inl hmem
  | case2 token others => cases hmem
  | case3 first rest token others hgap ih =>
      rcases List.mem_cons.mp hmem with rfl | hlater
      · exact Or.inl List.mem_cons_self
      · exact (ih hlater).imp_left (List.mem_cons_of_mem first)
  | case4 first rest token others hgap ih =>
      rcases List.mem_append.mp hmem with htext | hlater
      · -- a token that is written as before keeps its own characters
        unfold rewrite at htext
        split at htext
        · exact Or.inl (List.cons_subset_cons first (List.takeWhile_subset _) htext)
        · exact Or.inr ⟨token, List.mem_cons_self, htext⟩
      · rcases ih hlater with hrest | ⟨other, hother, hwritten⟩
        · have hline := (List.dropWhile_suffix _).subset hrest
          exact Or.inl (List.mem_cons_of_mem first hline)
        · exact Or.inr ⟨other, List.mem_cons_of_mem token hother, hwritten⟩

end NodeGrid.Assembly
