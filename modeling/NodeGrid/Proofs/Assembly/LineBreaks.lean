import NodeGrid.Proofs.Assembly.Errors
import NodeGrid.Proofs.Assembly.RoundTrip
import NodeGrid.Proofs.Text.Pieces

/-!
# Line breaks in a text

The tokens of a text can be said without cutting it into lines: from its start to its end
it is made up of the longest pieces there are, and a line break is a piece like any other
(`Cuts`).  What a piece may go on with is the whole rest of the text, the following lines
included.

This comes to the same as cutting every line by itself (`tokenLines_eq_iff_cuts`), since no
token, gap or comment has a line break in it (`Cuts.tokenLinesFrom_eq`).  So the two sides
of a line break are cut on their own, and what stands below it only has higher line numbers
(`tokenLines_lineBreak`).
-/

namespace NodeGrid.Assembly

/-! ## Cutting a text from its start to its end -/

/-- The pieces of a text from its start to its end come to these tokens, line by line, or to
this error.  Comments and tokens are as long as they can be.  The first line has the number
`line`. -/
inductive Cuts : ℕ → List Char → Except CompileError (List (List Token)) → Prop where
  | nothing {line : ℕ} : Cuts line [] (.ok [[]])
  | gap {line : ℕ} {c : Char} {rest : List Char} {result : Except CompileError (List (List Token))}
      (hgap : c ∈ [' ', '\t', '\r', '\x0c']) (hrest : Cuts line rest result) :
      Cuts line (c :: rest) result
  | comment {line : ℕ} {text rest : List Char}
      {result : Except CompileError (List (List Token))} (htext : '\n' ∉ text)
      (hends : ∀ c ∈ rest.head?, c = '\n') (hrest : Cuts line rest result) :
      Cuts line ('#' :: (text ++ rest)) result
  | lineBreak {line : ℕ} {rest : List Char} {result : Except CompileError (List (List Token))}
      (hrest : Cuts (line + 1) rest result) : Cuts line ('\n' :: rest) (result.map ([] :: ·))
  | token {line : ℕ} {text rest : List Char} {token : Token}
      {result : Except CompileError (List (List Token))} (hlongest : Longest text rest token)
      (hrest : Cuts line rest result) :
      Cuts line (text ++ rest) (result.map (List.modifyHead (token :: ·)))
  | stray {line : ℕ} {c : Char} {rest : List Char}
      (hmark : c ∉ [' ', '\t', '\r', '\x0c', '#', '\n'])
      (hnone : ∀ text token, text <+: c :: rest → ¬ Lexeme text token) :
      Cuts line (c :: rest) (.error ⟨line, .strayCharacter c⟩)

/-- A text that starts with a lexeme starts with a longest one. -/
theorem Lexeme.exists_longest {c : Char} {text rest : List Char} {token : Token}
    (hlexeme : Lexeme text token) (htext : text <+: c :: rest) :
    ∃ longest left token, Longest longest left token ∧ longest ++ left = c :: rest := by
  rcases hlexeme.starts htext with hupper | hstarts | rfl | rfl
  · obtain ⟨longest, hlongest, hwhole⟩ := exists_longest_word rest hupper
    exact ⟨longest, _, _, hlongest, hwhole⟩
  · obtain ⟨longest, hlongest, hwhole⟩ := exists_longest_number hstarts
    exact ⟨longest, _, _, hlongest, hwhole⟩
  · exact ⟨[':'], rest, _, Longest.of_mark .colon (Or.inl rfl), rfl⟩
  · exact ⟨[','], rest, _, Longest.of_mark .comma (Or.inr rfl), rfl⟩

/-- Every text begins with the rest of a line. -/
theorem exists_rest_of_line (text : List Char) : ∃ first rest, text = first ++ rest ∧
    '\n' ∉ first ∧ ∀ c ∈ rest.head?, c = '\n' := by
  refine ⟨text.takeWhile (· != '\n'), text.dropWhile (· != '\n'),
    List.takeWhile_append_dropWhile.symm, fun hmem => ?_, fun c hhead => ?_⟩
  · have hinner := List.mem_takeWhile_imp hmem
    simp at hinner
  · have hstop : (c != '\n') = false := head?_dropWhile text c hhead
    simpa using hstop

/-- A text can be cut if what is left of it without its first piece can be. -/
theorem exists_cuts_of_shorter {line : ℕ} {text : List Char}
    (hshorter : ∀ piece rest line, piece ≠ [] → text = piece ++ rest →
      ∃ result, Cuts line rest result) : ∃ result, Cuts line text result := by
  cases text with
  | nil => exact ⟨_, .nothing⟩
  | cons c rest =>
      by_cases hbreak : c = '\n'
      · subst hbreak
        obtain ⟨result, hresult⟩ := hshorter ['\n'] rest (line + 1) (by simp) rfl
        exact ⟨_, .lineBreak hresult⟩
      by_cases hcomment : c = '#'
      · subst hcomment
        obtain ⟨text, left, rfl, htext, hends⟩ := exists_rest_of_line rest
        obtain ⟨result, hresult⟩ := hshorter ('#' :: text) left line (by simp) rfl
        exact ⟨result, .comment htext hends hresult⟩
      by_cases hgap : c ∈ [' ', '\t', '\r', '\x0c']
      · obtain ⟨result, hresult⟩ := hshorter [c] rest line (by simp) rfl
        exact ⟨result, .gap hgap hresult⟩
      -- what is none of these is a token, or does not belong to the language
      by_cases hlexeme : ∃ text token, text <+: c :: rest ∧ Lexeme text token
      · obtain ⟨text, token, htext, hlexeme⟩ := hlexeme
        obtain ⟨longest, left, token, hlongest, hwhole⟩ := hlexeme.exists_longest htext
        obtain ⟨result, hresult⟩ := hshorter longest left line hlongest.lexeme.ne_nil hwhole.symm
        rw [← hwhole]
        exact ⟨_, .token hlongest hresult⟩
      · refine ⟨_, .stray ?_ fun text token htext hother => hlexeme ⟨text, token, htext, hother⟩⟩
        simp only [List.mem_cons, List.not_mem_nil, or_false, not_or] at hgap ⊢
        exact ⟨hgap.1, hgap.2.1, hgap.2.2.1, hgap.2.2.2, hcomment, hbreak⟩

/-- Every text can be cut. -/
theorem exists_cuts (line : ℕ) (text : List Char) : ∃ result, Cuts line text result := by
  induction hlength : text.length using Nat.strongRecOn generalizing line text with
  | _ length ih =>
      refine exists_cuts_of_shorter fun piece rest line hpiece htext => ?_
      refine ih rest.length ?_ line rest rfl
      have hpositive := List.length_pos_iff.mpr hpiece
      rw [← hlength, htext, List.length_append]
      omega

/-! ## Cutting every line by itself -/

/-- The tokens of every line of a text, of which the first has the number `line`. -/
def tokenLinesFrom (line : ℕ) (text : List Char) : Except CompileError (List (List Token)) :=
  readLines (fun line => (Token.scan line).mapError .strayCharacter) line (text.splitOn '\n')

section Lines

variable {line : ℕ} {text rest : List Char}

/-- What stands in front of a text only matters to its first line. -/
theorem tokenLinesFrom_append {change : List Token → List Token} (htext : '\n' ∉ text)
    (hscan : ∀ first, first <+: rest → '\n' ∉ first →
      Token.scan (text ++ first) = (Token.scan first).map change) :
    tokenLinesFrom line (text ++ rest) =
      (tokenLinesFrom line rest).map (List.modifyHead change) := by
  obtain ⟨first, others, hprefix, hfirst, hsplit⟩ := Text.exists_splitOn_append '\n' rest
  have hrest : rest.splitOn '\n' = first :: others := hsplit [] List.not_mem_nil
  rw [tokenLinesFrom, tokenLinesFrom, hsplit text htext, hrest, readLines, readLines,
    hscan first hprefix hfirst]
  cases Token.scan first with
  | error c => rfl
  | ok tokens =>
      cases readLines (fun line => (Token.scan line).mapError .strayCharacter) (line + 1) others <;>
        rfl

theorem map_modifyHead_id (result : Except CompileError (List (List Token))) :
    result.map (List.modifyHead id) = result := by
  cases result with
  | error broken => rfl
  | ok lines => rw [Except.map, List.modifyHead_id, id]

theorem Longest.mono {text rest first : List Char} {token : Token}
    (hlongest : Longest text rest token) (hfirst : first <+: rest) : Longest text first token where
  lexeme := hlongest.lexeme
  eq_nil := fun more other hmore => hlongest.eq_nil more other (hmore.trans hfirst)

/-- No piece of a text reaches beyond its line. -/
theorem Cuts.tokenLinesFrom_eq {result : Except CompileError (List (List Token))}
    (hcuts : Cuts line text result) : tokenLinesFrom line text = result := by
  induction hcuts with
  | nothing => simp [tokenLinesFrom, readLines, Token.scan, Except.mapError, pure, Except.pure]
  | @gap line c rest result hgap hrest ih =>
      have hscan : ∀ first, first <+: rest → '\n' ∉ first →
          Token.scan ([c] ++ first) = (Token.scan first).map id := by
        intro first _ _
        rw [List.singleton_append, scan_gap (isGap_iff.mpr hgap)]
        cases Token.scan first <;> rfl
      have hbreak : '\n' ∉ [c] := by
        rintro hmem
        obtain rfl := List.mem_singleton.mp hmem
        exact absurd hgap (by decide)
      rw [← List.singleton_append, tokenLinesFrom_append hbreak hscan, ih, map_modifyHead_id]
  | @comment line text rest result htext hends hrest ih =>
      -- the comment is followed by nothing on its line
      have hscan : ∀ first, first <+: rest → '\n' ∉ first →
          Token.scan ('#' :: text ++ first) = (Token.scan first).map id := by
        intro first hprefix hfirst
        have hnil : first = [] := by
          cases first with
          | nil => rfl
          | cons c more =>
              obtain ⟨left, rfl⟩ := hprefix
              have hc : c = '\n' := hends c rfl
              exact absurd (hc ▸ List.mem_cons_self) hfirst
        rw [hnil, List.cons_append, scan_comment, Token.scan]
        rfl
      have hbreak : '\n' ∉ '#' :: text := List.not_mem_cons_of_ne_of_not_mem (by decide) htext
      rw [← List.cons_append, tokenLinesFrom_append hbreak hscan, ih, map_modifyHead_id]
  | @lineBreak line rest result hrest ih =>
      have hsplit : ('\n' :: rest).splitOn '\n' = [] :: rest.splitOn '\n' :=
        List.splitOn_append_cons_self_of_not_mem List.not_mem_nil rest
      rw [tokenLinesFrom, hsplit, readLines, Token.scan, ← ih]
      rfl
  | @token line text rest token result hlongest hrest ih =>
      have hbreak : '\n' ∉ text := fun hmem =>
        not_isWritten_newline (hlongest.lexeme.isWritten _ hmem)
      rw [tokenLinesFrom_append hbreak fun first hprefix _ => (hlongest.mono hprefix).scan_eq, ih]
  | @stray line c rest hmark hnone =>
      obtain ⟨first, others, hprefix, -, hsplit⟩ := Text.exists_splitOn_append '\n' rest
      simp only [List.mem_cons, List.not_mem_nil, or_false, not_or] at hmark
      have hscan : Token.scan (c :: first) = .error c := by
        refine scan_of_no_lexeme (by simp [hmark]) hmark.2.2.2.2.1 fun text token htext => ?_
        exact hnone text token (htext.trans ((List.prefix_cons_inj c).mpr hprefix))
      have hbreak : '\n' ∉ [c] := fun hmem => hmark.2.2.2.2.2 (List.mem_singleton.mp hmem).symm
      rw [tokenLinesFrom, ← List.singleton_append, hsplit [c] hbreak, List.singleton_append,
        readLines, hscan]
      rfl

/-- The tokens of a text are found in one go from its start to its end. -/
theorem tokenLines_eq_iff_cuts {result : Except CompileError (List (List Token))} :
    tokenLines text = result ↔ Cuts 1 text result := by
  constructor
  · rintro rfl
    obtain ⟨result, hcuts⟩ := exists_cuts 1 text
    have hsame : tokenLines text = result := hcuts.tokenLinesFrom_eq
    rwa [hsame]
  · exact Cuts.tokenLinesFrom_eq

end Lines

/-! ## The two sides of a line break -/

/-- The error of a text, if this is its error in a part that starts so many lines below. -/
def CompileError.moveDown (error : CompileError) (lines : ℕ) : CompileError where
  line := error.line + lines
  cause := error.cause

section Sides

variable {α β : Type} {read : α → Except Cause β}

theorem readLines_append (first : ℕ) (lines others : List α) :
    readLines read first (lines ++ others) = do
      let values ← readLines read first lines
      let more ← readLines read (first + lines.length) others
      return values ++ more := by
  induction lines generalizing first with
  | nil => simp [readLines]
  | cons line rest ih =>
      have hnext : first + (line :: rest).length = first + 1 + rest.length := by
        rw [List.length_cons]
        omega
      simp only [List.cons_append, readLines, ih, hnext, bind_assoc, pure_bind]

/-- Lines with higher numbers are read alike. -/
theorem readLines_moveDown (first more : ℕ) (lines : List α) :
    readLines read (first + more) lines =
      (readLines read first lines).mapError (·.moveDown more) := by
  induction lines generalizing first with
  | nil => rfl
  | cons line rest ih =>
      rw [readLines, readLines, mapError_bind, Nat.add_right_comm, ih]
      cases read line with
      | error cause => rfl
      | ok value => cases readLines read (first + 1) rest <;> rfl

end Sides

/-- A text with a line break between two parts. -/
theorem tokenLines_append_lineBreak (before after : List Char) :
    tokenLines (before ++ '\n' :: after) = do
      let above ← tokenLines before
      let below ← (tokenLines after).mapError (·.moveDown (1 + before.count '\n'))
      return above ++ below := by
  have hlength : 1 + (before.splitOn '\n').length = 1 + (1 + before.count '\n') := by
    rw [Text.length_splitOn, Nat.add_comm (before.count '\n') 1]
  rw [tokenLines, Text.splitOn_break, readLines_append, hlength, readLines_moveDown]
  rfl

/-- A text has one line more than line breaks, in tokens too. -/
theorem length_of_tokenLines {text : List Char} {lines : List (List Token)}
    (hlines : tokenLines text = .ok lines) : lines.length = 1 + text.count '\n' := by
  have hread := readLines_eq_ok_iff.mp hlines
  rw [← hread.length_eq, Text.length_splitOn, Nat.add_comm]

/-- The tokens of a text are found line by line, although it is cut from its start to its
end.  A text with a line break between two parts has the tokens of both.  It has the error
of the first part, or else that of the second, which lies as many lines further down as
there are line breaks before it. -/
theorem tokenLines_lineBreak (before after : List Char) :
    (∀ text result, tokenLines text = result ↔ Cuts 1 text result) ∧
    (∀ lines, tokenLines (before ++ '\n' :: after) = .ok lines ↔
      ∃ above below, tokenLines before = .ok above ∧ tokenLines after = .ok below ∧
        lines = above ++ below) ∧
    (∀ error, tokenLines (before ++ '\n' :: after) = .error error ↔
      tokenLines before = .error error ∨
        ∃ above broken, tokenLines before = .ok above ∧ tokenLines after = .error broken ∧
          error = broken.moveDown (1 + before.count '\n')) ∧
    ∀ text lines, tokenLines text = .ok lines → lines.length = 1 + text.count '\n' := by
  rw [tokenLines_append_lineBreak]
  refine ⟨fun text result => tokenLines_eq_iff_cuts, fun lines => ?_, fun error => ?_,
    fun text lines => length_of_tokenLines⟩
  · simp only [bind_eq_ok, mapError_eq_ok_iff]
    constructor
    · rintro ⟨above, habove, below, hbelow, hlines⟩
      cases hlines
      exact ⟨above, below, habove, hbelow, rfl⟩
    · rintro ⟨above, below, habove, hbelow, rfl⟩
      exact ⟨above, habove, below, hbelow, rfl⟩
  · -- the second part is cut only after the first one has been
    rw [bind_eq_error]
    refine or_congr_right ?_
    simp only [bind_eq_error, mapError_eq_error_iff]
    constructor
    · rintro ⟨above, habove, ⟨broken, hbroken, herror⟩ | ⟨below, -, hreturn⟩⟩
      · exact ⟨above, broken, habove, hbroken, herror⟩
      · cases hreturn
    · rintro ⟨above, broken, habove, hbroken, herror⟩
      exact ⟨above, habove, Or.inl ⟨broken, hbroken, herror⟩⟩

/-- A text of four lines, of which two have no tokens. -/
def commented : List Char := "# header\nNOP\n\nSWP # trailing".toList

theorem tokenLines_commented :
    tokenLines commented =
      .ok [[], [.word (.plain .nop)], [], [.word (.plain .swp)]] ∧
    4 = 1 + commented.count '\n' ∧
    tokenLines (commented ++ '\n' :: "ADD +4".toList) = .error ⟨5, .strayCharacter '+'⟩ := by
  have hlines : tokenLines commented =
      .ok [[], [.word (.plain .nop)], [], [.word (.plain .swp)]] :=
    eq_ok_of_beq (by decide +kernel)
  have hstray : tokenLines "ADD +4".toList = .error ⟨1, .strayCharacter '+'⟩ := by
    decide +kernel
  obtain ⟨-, -, herror, hlength⟩ := tokenLines_lineBreak commented "ADD +4".toList
  exact ⟨hlines, hlength _ _ hlines, (herror _).mpr (Or.inr ⟨_, _, hlines, hstray, rfl⟩)⟩

end NodeGrid.Assembly
