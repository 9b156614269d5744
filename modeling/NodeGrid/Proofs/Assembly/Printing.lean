import NodeGrid.Proofs.Assembly.LineBreaks
import NodeGrid.Proofs.Assembly.Respelling

/-!
# Tokens are read back as they are written

The tokens of a text can be written down again, with a blank between any two on a line
(`writtenLines`).  What is written has the same tokens on the same lines, however the
tokens stood in the text (`tokenLines_writtenLines`).

For the tokens of a text are written with the lexemes they were told by (`Lexes.lexeme`),
and with a blank behind it a lexeme is the longest one, whatever comes after the blank.
-/

namespace NodeGrid.Assembly

/-- The tokens of a line with a blank between any two. -/
def writtenLine (tokens : List Token) : List Char :=
  [' '].intercalate (tokens.map Token.written)

/-- The lines of tokens, as a text. -/
def writtenLines (lines : List (List Token)) : List Char :=
  Text.unlines (lines.map writtenLine)

section Lines

variable {text : List Char} {token : Token} {tokens : List Token} {lines : List (List Token)}

theorem writtenLine_singleton : writtenLine [token] = token.written := by
  rw [writtenLine, List.map_singleton, List.intercalate_singleton]

theorem writtenLine_cons_cons {next : Token} : writtenLine (token :: next :: tokens) =
    token.written ++ ' ' :: writtenLine (next :: tokens) := by
  simp [writtenLine, List.intercalate_cons_cons]

/-- Lexemes with blanks between them are cut apart at the blanks. -/
theorem lexes_writtenLine (htokens : ∀ token ∈ tokens, Lexeme token.written token) :
    Lexes (writtenLine tokens) tokens := by
  induction tokens with
  | nil => exact .nothing
  | cons token rest ih =>
      obtain ⟨hfirst, hrest⟩ := List.forall_mem_cons.mp htokens
      cases rest with
      | nil =>
          rw [writtenLine_singleton]
          exact .last hfirst
      | cons next others =>
          rw [writtenLine_cons_cons]
          exact .blank hfirst (ih hrest)

theorem isWritten_writtenLine (htokens : ∀ token ∈ tokens, Lexeme token.written token) :
    ∀ c ∈ writtenLine tokens, IsWritten c := by
  induction tokens with
  | nil =>
      intro c hmem
      cases hmem
  | cons token rest ih =>
      obtain ⟨hfirst, hrest⟩ := List.forall_mem_cons.mp htokens
      cases rest with
      | nil =>
          rw [writtenLine_singleton]
          exact hfirst.isWritten
      | cons next others =>
          rw [writtenLine_cons_cons, List.forall_mem_append, List.forall_mem_cons]
          exact ⟨hfirst.isWritten, Or.inr (by simp), ih hrest⟩

/-- The tokens of a text are those of its lines. -/
theorem tokenLines_eq_ok_iff_forall₂ :
    tokenLines text = .ok lines ↔ List.Forall₂ Lexes (text.splitOn '\n') lines := by
  simp only [tokenLines, readLines_eq_ok_iff, mapError_eq_ok_iff, scan_eq_ok_iff]

/-- The tokens of lines are written with lexemes. -/
theorem lexeme_of_lexes {sources : List (List Char)} (hlexes : List.Forall₂ Lexes sources lines) :
    ∀ line ∈ lines, ∀ token ∈ line, Lexeme token.written token := by
  induction hlexes with
  | nil =>
      intro line hline
      cases hline
  | cons hline _ ih => exact List.forall_mem_cons.mpr ⟨hline.lexeme, ih⟩

/-- Lines of lexemes are read back. -/
theorem tokenLines_of_lexemes (hne : lines ≠ [])
    (hlexemes : ∀ line ∈ lines, ∀ token ∈ line, Lexeme token.written token) :
    tokenLines (writtenLines lines) = .ok lines := by
  have hsplit : (writtenLines lines).splitOn '\n' = lines.map writtenLine := by
    refine List.splitOn_intercalate '\n' (fun line hline hbreak => ?_) (by simpa using hne)
    obtain ⟨tokens, htokens, rfl⟩ := List.mem_map.mp hline
    exact not_isWritten_newline (isWritten_writtenLine (hlexemes tokens htokens) _ hbreak)
  rw [tokenLines_eq_ok_iff_forall₂, hsplit, List.forall₂_map_left_iff, List.forall₂_same]
  exact fun line hline => lexes_writtenLine (hlexemes line hline)

/-- What is written for the tokens of a text has the same tokens on the same lines.  Each
token alone is written as exactly this token. -/
theorem tokenLines_writtenLines (hlines : tokenLines text = .ok lines) :
    tokenLines (writtenLines lines) = .ok lines ∧
      ∀ line ∈ lines, ∀ token ∈ line, tokenLines token.written = .ok [[token]] := by
  have hlexemes := lexeme_of_lexes (tokenLines_eq_ok_iff_forall₂.mp hlines)
  have hne : lines ≠ [] := by
    rintro rfl
    have hlength := length_of_tokenLines hlines
    rw [List.length_nil] at hlength
    omega
  refine ⟨tokenLines_of_lexemes hne hlexemes, fun line hline token htoken => ?_⟩
  have halone : writtenLines [[token]] = token.written := by
    rw [writtenLines, List.map_singleton, writtenLine_singleton]
    exact List.intercalate_singleton
  rw [← halone]
  refine tokenLines_of_lexemes (List.cons_ne_nil _ _) ?_
  simpa using hlexemes line hline token htoken

end Lines

/-- Tokens that touch each other, a word that starts like a reserved one, and a comment. -/
def crowded : List Char := "1ABC:MOVE\n5-3,-0,ACC\t# 7".toList

theorem tokenLines_crowded :
    tokenLines crowded = .ok
      [[.number ['1'], .word (.name "ABC".toList), .colon, .word (.name "MOVE".toList)],
        [.number ['5'], .number "-3".toList, .comma, .number "-0".toList, .comma,
          .word (.register .acc)]] ∧
    tokenLines "1 ABC : MOVE\n5 -3 , -0 , ACC".toList = tokenLines crowded := by
  have hlines : tokenLines crowded = .ok
      [[.number ['1'], .word (.name "ABC".toList), .colon, .word (.name "MOVE".toList)],
        [.number ['5'], .number "-3".toList, .comma, .number "-0".toList, .comma,
          .word (.register .acc)]] := eq_ok_of_beq (by decide +kernel)
  exact ⟨hlines, (tokenLines_writtenLines hlines).1.trans hlines.symm⟩

end NodeGrid.Assembly
