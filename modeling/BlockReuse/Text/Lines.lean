import BlockReuse.Text.Parts

/-!
# Lines — a text cut at its line ends

A line ends with a line feed, in front of which there may be a carriage return. What stands behind
the last line end is a line of its own unless it is empty.
-/

set_option autoImplicit false

namespace BlockReuse.Text

/-- A line without the carriage return of its line end. -/
def withoutReturn (line : List Char) : List Char :=
  if line.getLast? = some '\r' then line.dropLast else line

/-- The lines whose parts are given. -/
def linesOfParts : List (List Char) → List (List Char)
  | [] => []
  | [last] => if last = [] then [] else [last]
  | line :: rest => withoutReturn line :: linesOfParts rest

/-- The lines of a text. -/
def lines (text : List Char) : List (List Char) := linesOfParts (parts '\n' text)

end BlockReuse.Text
