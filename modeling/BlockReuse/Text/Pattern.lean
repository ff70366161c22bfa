/-!
# Patterns — which texts have a part of a given shape

A pattern relates the places of a text: it leads from one place to another when the characters
between them have its shape. `Pattern.reach` says where a pattern leads from a set of places, which
is given by one mark per place, and a text matches when its pattern leads anywhere at all from any
of its places.
-/

set_option autoImplicit false

namespace BlockReuse.Text

/-- A place in a text, by the characters on its two sides. -/
structure Place where
  before : Option Char
  behind : Option Char
  deriving DecidableEq, Repr

/-- The places of a text that stands behind a character. -/
def placesFrom (before : Option Char) : List Char → List Place
  | [] => [⟨before, none⟩]
  | c :: cs => ⟨before, some c⟩ :: placesFrom (some c) cs

/-- The places of a text: one in front of each character, and one at the end. -/
def places (text : List Char) : List Place := placesFrom none text

/-- The characters of words, which are ASCII characters. -/
def isWordChar (c : Char) : Bool := c.isAlphanum || c == '_'

namespace Place

def isTextStart (p : Place) : Bool := p.before.isNone

def isTextEnd (p : Place) : Bool := p.behind.isNone

def isLineStart (p : Place) : Bool := p.before.all (· == '\n')

def isLineEnd (p : Place) : Bool := p.behind.all (· == '\n')

/-- A line start where a carriage return, alone or with a line feed behind it, ends lines too. -/
def isReturnLineStart (p : Place) : Bool :=
  p.before.all (· == '\n') || p.before == some '\r' && p.behind != some '\n'

/-- A line end where a carriage return, alone or with a line feed behind it, ends lines too. -/
def isReturnLineEnd (p : Place) : Bool :=
  p.behind.all (· == '\r') || p.behind == some '\n' && p.before != some '\r'

def isBehindWord (p : Place) : Bool := p.before.any isWordChar

def isBeforeWord (p : Place) : Bool := p.behind.any isWordChar

/-- Whether a word starts or ends here. -/
def isWordEdge (p : Place) : Bool := p.isBehindWord != p.isBeforeWord

def isWordStart (p : Place) : Bool := !p.isBehindWord && p.isBeforeWord

def isWordEnd (p : Place) : Bool := p.isBehindWord && !p.isBeforeWord

end Place

/-- A shape of texts. -/
inductive Pattern where
  /-- No character at all. -/
  | nothing
  /-- No character, at a place of a certain kind. -/
  | place (holds : Place → Bool)
  /-- One character. -/
  | one (admits : Char → Bool)
  /-- One shape behind another. -/
  | both (first second : Pattern)
  | either (left right : Pattern)
  /-- A shape at least so many times, and at most so many if there is a limit. -/
  | repeated (body : Pattern) (least : Nat) (most : Option Nat)

/-- One mark per place. -/
abbrev Marks := List Bool

namespace Marks

/-- The places marked in either. -/
def union (a b : Marks) : Marks := List.zipWith (· || ·) a b

/-- The places that so many steps lead to. -/
def advance (step : Marks → Marks) : Nat → Marks → Marks
  | 0, marks => marks
  | n + 1, marks =>
    let after := step marks
    if after = marks then marks else advance step n after

/-- The marked places and those that steps lead to, at most so many steps on. -/
def grow (step : Marks → Marks) : Nat → Marks → Marks
  | 0, marks => marks
  | n + 1, marks =>
    let more := marks.union (step marks)
    if more = marks then marks else grow step n more

end Marks

namespace Pattern

/-- Where a pattern leads from the marked places. No step leads back, so as many steps as there are
places lead wherever more steps do. -/
def reach (places : List Place) : Pattern → Marks → Marks
  | nothing, marks => marks
  | place holds, marks => List.zipWith (fun p m => m && holds p) places marks
  | one admits, marks =>
    false :: (List.zipWith (fun p m => m && p.behind.any admits) places marks).dropLast
  | both first second, marks => second.reach places (first.reach places marks)
  | either left right, marks => (left.reach places marks).union (right.reach places marks)
  | repeated body least most, marks =>
    let step := body.reach places
    let optional := match most with
      | some most => min (most - least) places.length
      | none => places.length
    Marks.grow step optional (Marks.advance step (min least places.length) marks)

/-- Whether a part of a text has the shape. -/
def matchesIn (p : Pattern) (text : String) : Bool :=
  let places := places text.toList
  (p.reach places (places.map fun _ => true)).any id

end Pattern

end BlockReuse.Text
