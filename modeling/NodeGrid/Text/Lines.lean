/-!
# Lines of a text

There are two ways to cut a text into lines.  `List.splitOn` at the line
break gives one line more than there are breaks, and keeps everything else.
`displayLines` is for showing a text: a break ends a line, so the text after
the last break counts as a line only if there is any, and a carriage return
before a break belongs to the break.
-/

namespace NodeGrid.Text

/-- A line without the carriage return at its end. -/
def dropCarriageReturn (line : List Char) : List Char :=
  if line.getLast? = some '\r' then line.dropLast else line

/-- The lines to show for a text cut at its line breaks. -/
def displayLinesOf : List (List Char) → List (List Char)
  | [] => []
  | [last] => if last.isEmpty then [] else [last]
  | line :: rest => dropCarriageReturn line :: displayLinesOf rest

/-- The lines to show for a text. -/
def displayLines (text : List Char) : List (List Char) :=
  displayLinesOf (text.splitOn '\n')

/-- The lines joined by line breaks. -/
def unlines (lines : List (List Char)) : List Char :=
  ['\n'].intercalate lines

end NodeGrid.Text
