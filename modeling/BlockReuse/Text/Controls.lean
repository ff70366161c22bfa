/-!
# Controls — what is left of a text without the controls of a terminal

A control other than a tabulator, a line feed, a form feed or a carriage return is left out, and so
is an escape sequence: an escape and what belongs to it. There are short sequences, control
sequences behind a bracket, titles behind a closing bracket, and strings.

A blank control interrupts a short sequence or a control sequence. It is shown, and so is the text
behind it up to the next control that is not; there the sequence goes on, unless the text had a
character beyond ASCII, which ends it. A title or a string is not interrupted and swallows
everything up to its end.
-/

set_option autoImplicit false

namespace BlockReuse.Text

/-- What the characters read so far leave open. -/
inductive Sequence where
  /-- Nothing. -/
  | closed
  /-- An escape. -/
  | escape
  /-- An escape and marks that ask for another character. -/
  | escapeMarks
  /-- A control sequence. -/
  | control
  /-- A title. -/
  | title
  /-- A string before its parameters, among them, or among the marks behind them. -/
  | stringStart
  | stringParameters
  | stringMarks
  /-- A string of which nothing but the end matters. -/
  | string
  deriving DecidableEq, Repr

/-- The controls that are shown. -/
def isShownControl (c : Char) : Bool := c == '\t' || c == '\n' || c == '\x0c' || c == '\r'

/-- Whether the byte that ends strings is one of those that encode a character. -/
def endsString (c : Char) : Bool := (String.utf8EncodeChar c).contains 0x9c

namespace Sequence

/-- Whether a control that is shown interrupts the sequence. -/
def isInterrupted : Sequence → Bool
  | closed | escape | escapeMarks | control => true
  | title | stringStart | stringParameters | stringMarks | string => false

/-- What a character that is shown in an ASCII table, and no control, leaves open. -/
def afterMark (s : Sequence) (c : Char) : Sequence :=
  let mark := decide (c < '0')
  let parameter := decide (c < '@')
  match s with
  | closed => closed
  | escape =>
    if mark then escapeMarks
    else if c = '[' then control
    else if c = ']' then title
    else if c = 'P' then stringStart
    else if c = 'X' ∨ c = '^' ∨ c = '_' then string
    else closed
  | escapeMarks => if mark then escapeMarks else closed
  | control => if parameter then control else closed
  | title => title
  | stringStart =>
    if mark then stringMarks else if parameter then stringParameters else string
  | stringParameters =>
    if mark then stringMarks else if c < '<' then stringParameters else string
  | stringMarks => if mark then stringMarks else string
  | string => string

end Sequence

/-- Where a reader of a text stands: what is left open, and whether it is interrupted. -/
structure Standpoint where
  sequence : Sequence
  interrupted : Bool
  deriving DecidableEq, Repr

namespace Standpoint

/-- Within a sequence. -/
def within (sequence : Sequence) : Standpoint := ⟨sequence, false⟩

/-- Where nothing is left open. -/
def plain : Standpoint := within .closed

/-- Whether characters that are no controls are shown. -/
def shows (s : Standpoint) : Bool := s.interrupted || decide (s.sequence = .closed)

/-- Whether a character is shown, and where the reader stands behind it. -/
def next (s : Standpoint) (c : Char) : Bool × Standpoint :=
  if c = '\x1b' then (false, within .escape)
  else if c = '\x18' ∨ c = '\x1a' then (false, plain)
  else if c = '\x7f' then (false, within s.sequence)
  else if c < ' ' then
    if s.sequence = .title ∧ c = '\x07' then (false, plain)
    else if isShownControl c && s.sequence.isInterrupted then (true, ⟨s.sequence, true⟩)
    else (false, within s.sequence)
  else if c < '\x7f' then
    if s.shows then (true, s) else (false, within (s.sequence.afterMark c))
  else if s.shows then (true, plain)
  else if s.sequence = .string ∧ endsString c then (false, plain)
  else (false, s)

/-- The characters that are shown of a text. -/
def shown (s : Standpoint) : List Char → List Char
  | [] => []
  | c :: cs =>
    let (visible, after) := s.next c
    if visible then c :: after.shown cs else after.shown cs

end Standpoint

/-- A text without the controls of a terminal. -/
def withoutControls (text : String) : String :=
  String.ofList (Standpoint.plain.shown text.toList)

end BlockReuse.Text
