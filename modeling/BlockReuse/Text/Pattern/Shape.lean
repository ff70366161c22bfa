import BlockReuse.Text.Pattern
import BlockReuse.Text.Pattern.Syntax

/-!
# Shapes — patterns in a plain form

A shape says what a pattern asks for, without the ways in which that can be written. Shapes are
put together by `inSequence`, `oneOf`, `times` and `ofSet`, which keep them plain:

- a sequence holds no sequences and no empty parts, and texts in it that follow each other are one;
- a choice holds no choices; a choice between characters or sets is a set, and what all branches
  start with stands in front of it;
- a set of one character is a text;
- what takes no character is not repeated more than once.

`Shape.pattern` is the pattern that a shape stands for.
-/

set_option autoImplicit false

namespace BlockReuse.Text.Pattern

/-- What a place has to be, flags taken into account. -/
inductive Look where
  | textStart
  | textEnd
  /-- A line start, and whether a carriage return ends lines too. -/
  | lineStart (returns : Bool)
  | lineEnd (returns : Bool)
  /-- An edge of a word, and whether words of all scripts are meant. -/
  | word (unicode : Bool) (edge : WordEdge)
  deriving DecidableEq, Repr

/-- The places at an edge of a word. -/
def WordEdge.holds : WordEdge → Place → Bool
  | either, p => p.isWordEdge
  | neither, p => !p.isWordEdge
  | start, p => p.isWordStart
  | stop, p => p.isWordEnd
  | startHalf, p => !p.isBehindWord
  | stopHalf, p => !p.isBeforeWord

/-- The places that are looked for. -/
def Look.holds : Look → Place → Bool
  | textStart, p => p.isTextStart
  | textEnd, p => p.isTextEnd
  | lineStart returns, p => if returns then p.isReturnLineStart else p.isLineStart
  | lineEnd returns, p => if returns then p.isReturnLineEnd else p.isLineEnd
  | word _ edge, p => edge.holds p

/-- What a pattern asks for. -/
inductive Shape where
  | nothing
  /-- Characters one behind the other. -/
  | text (chars : List Char)
  /-- A character from a set, and whether the set was written for all scripts. -/
  | set (unicode : Bool) (members : CharRanges)
  | look (look : Look)
  | repeated (count : Count) (body : Shape)
  /-- A group that keeps what it matches, by the place where it is written. -/
  | capture (start : Nat) (body : Shape)
  | sequence (items : List Shape)
  | choice (branches : List Shape)
  deriving BEq

namespace Shape

/-! ## How much a shape takes -/

mutual

/-- The fewest bytes a shape takes. A set without members has no such number, nor has anything it is
part of. -/
def leastBytes? : Shape → Option Nat
  | nothing => some 0
  | text chars => some (String.ofList chars).utf8ByteSize
  | set _ members => members.head?.map fun r => (Char.ofNat r.low).utf8Size
  | look _ => some 0
  | repeated count body => body.leastBytes?.map (count.least * ·)
  | capture _ body => body.leastBytes?
  | sequence items => leastBytesOfAll? items
  | choice branches => leastBytesOfAny? branches

/-- The fewest bytes that shapes take one behind the other. -/
def leastBytesOfAll? : List Shape → Option Nat
  | [] => some 0
  | x :: rest => do return (← x.leastBytes?) + (← leastBytesOfAll? rest)

/-- The fewest bytes that one of several shapes takes. -/
def leastBytesOfAny? : List Shape → Option Nat
  | [] => none
  | [x] => x.leastBytes?
  | x :: rest => do return min (← x.leastBytes?) (← leastBytesOfAny? rest)

end

/-- Whether a shape is known to take a character. -/
def takesSome (x : Shape) : Bool := x.leastBytes?.any (0 < ·)

mutual

/-- Whether a shape takes no character wherever it is found. -/
def takesNone : Shape → Bool
  | nothing => true
  | text chars => chars.isEmpty
  | set _ _ => false
  | look _ => true
  | repeated _ body => body.takesNone
  | capture _ body => body.takesNone
  | sequence items => allTakeNone items
  | choice branches => allTakeNone branches

def allTakeNone : List Shape → Bool
  | [] => true
  | x :: rest => x.takesNone && allTakeNone rest

end

/-! ## Putting shapes together -/

/-- A character from a set. -/
def ofSet (unicode : Bool) : CharRanges → Shape
  | [] => set false []
  | [r] => if r.low = r.high then text [Char.ofNat r.low] else set unicode [r]
  | members => set unicode members

/-- A shape so many times. -/
def times (count : Count) (body : Shape) : Shape :=
  let count : Count :=
    if body.takesNone then
      { count with least := min count.least 1, most := some (min (count.most.getD 1) 1) }
    else count
  if count.most = some 0 then nothing
  else if count.least = 1 ∧ count.most = some 1 then body
  else repeated count body

/-- The items of a sequence, or the shape itself. -/
def items : Shape → List Shape
  | sequence xs => xs
  | x => [x]

/-- The branches of a choice, or the shape itself. -/
def branches : Shape → List Shape
  | choice xs => xs
  | x => [x]

/-- Leaves out empty parts and joins texts that follow each other. -/
def joinTexts : List Shape → List Shape
  | [] => []
  | nothing :: rest => joinTexts rest
  | text a :: rest =>
    match joinTexts rest with
    | text b :: more => text (a ++ b) :: more
    | more => text a :: more
  | x :: rest => x :: joinTexts rest

/-- Shapes one behind the other. -/
def inSequence (xs : List Shape) : Shape :=
  match joinTexts (xs.flatMap items) with
  | [] => nothing
  | [x] => x
  | xs => sequence xs

/-- The character that a shape is. -/
def char? : Shape → Option Char
  | text [c] => some c
  | _ => none

/-- The members of the set that a shape is. -/
def members? : Shape → Option CharRanges
  | set _ members => some members
  | _ => none

/-- The set that branches between characters only or between sets only amount to. -/
def setOf? (xs : List Shape) : Option CharRanges :=
  match xs.mapM char? with
  | some chars => some (.ofList (chars.map .single))
  | none => (xs.mapM members?).map fun sets => .ofList sets.flatten

/-- What two lists of shapes start with. -/
def commonStart : List Shape → List Shape → List Shape
  | x :: xs, y :: ys => if x == y then x :: commonStart xs ys else []
  | _, _ => []

/-- The items of the sequence that a shape is. -/
def sequence? : Shape → Option (List Shape)
  | sequence xs => some xs
  | _ => none

/-- What branches all start with, if they are sequences and there is anything. -/
def commonStart? (xs : List Shape) : Option (List Shape × List (List Shape)) :=
  match xs.mapM sequence? with
  | some (first :: rest) =>
    let start := rest.foldl commonStart first
    if start.isEmpty then none else some (start, (first :: rest).map (·.drop start.length))
  | _ => none

/-- Shapes beside each other. What they start with is taken out at most so many times. -/
def oneOfWithin : Nat → List Shape → Shape
  | 0, xs => choice xs
  | limit + 1, xs =>
    match xs.flatMap branches with
    | [x] => x
    | xs =>
      match setOf? xs, commonStart? xs with
      | some members, _ => ofSet true members
      | none, some (start, ends) =>
        inSequence (start ++ [oneOfWithin limit (ends.map inSequence)])
      | none, none => choice xs

mutual

/-- The number of parts of a shape. -/
def parts : Shape → Nat
  | repeated _ body => body.parts + 1
  | capture _ body => body.parts + 1
  | sequence items => partsOfAll items + 1
  | choice branches => partsOfAll branches + 1
  | _ => 1

def partsOfAll : List Shape → Nat
  | [] => 0
  | x :: rest => x.parts + partsOfAll rest

end

/-- Shapes beside each other. Taking out what they start with leaves them fewer parts. -/
def oneOf (xs : List Shape) : Shape := oneOfWithin (partsOfAll xs + 1) xs

/-! ## Where a shape can be found -/

mutual

/-- Whether a shape is found only where a place is of a kind at its start. -/
def opensWith (kind : Look) : Shape → Bool
  | look l => l = kind
  | repeated count body => decide (0 < count.least) && body.opensWith kind
  | capture _ body => body.opensWith kind
  | sequence items => sequenceOpensWith kind items
  | choice branches => allOpenWith kind branches
  | _ => false

def sequenceOpensWith (kind : Look) : List Shape → Bool
  | [] => false
  | x :: rest => x.opensWith kind || x.takesNone && sequenceOpensWith kind rest

def allOpenWith (kind : Look) : List Shape → Bool
  | [] => true
  | x :: rest => x.opensWith kind && allOpenWith kind rest

end

mutual

/-- Whether a shape is found only where a place is of a kind at its end. -/
def closesWith (kind : Look) : Shape → Bool
  | look l => l = kind
  | repeated count body => decide (0 < count.least) && body.closesWith kind
  | capture _ body => body.closesWith kind
  | sequence items => (sequenceClosesWith kind items).1
  | choice branches => allCloseWith kind branches
  | _ => false

/-- The same of shapes one behind the other, and whether they take no character. -/
def sequenceClosesWith (kind : Look) : List Shape → Bool × Bool
  | [] => (false, true)
  | x :: rest =>
    let (found, free) := sequenceClosesWith kind rest
    (found || free && x.closesWith kind, free && x.takesNone)

def allCloseWith (kind : Look) : List Shape → Bool
  | [] => true
  | x :: rest => x.closesWith kind && allCloseWith kind rest

end

mutual

/-- Whether a shape asks for edges of words of all scripts. -/
def asksForWords : Shape → Bool
  | look (.word unicode _) => unicode
  | repeated _ body => body.asksForWords
  | capture _ body => body.asksForWords
  | sequence items => anyAsksForWords items
  | choice branches => anyAsksForWords branches
  | _ => false

def anyAsksForWords : List Shape → Bool
  | [] => false
  | x :: rest => x.asksForWords || anyAsksForWords rest

end

/-! ## The pattern -/

/-- A text as a pattern. -/
def textPattern : List Char → Pattern
  | [] => .nothing
  | [c] => .one (· == c)
  | c :: rest => .both (.one (· == c)) (textPattern rest)

mutual

/-- The pattern that a shape stands for. -/
def pattern : Shape → Pattern
  | nothing => .nothing
  | text chars => textPattern chars
  | set _ members => .one members.holds
  | look l => .place l.holds
  | repeated count body => .repeated body.pattern count.least count.most
  | capture _ body => body.pattern
  | sequence items => patternOfAll items
  | choice branches => patternOfAny branches

def patternOfAll : List Shape → Pattern
  | [] => .nothing
  | [x] => x.pattern
  | x :: rest => .both x.pattern (patternOfAll rest)

def patternOfAny : List Shape → Pattern
  | [] => .one fun _ => false
  | [x] => x.pattern
  | x :: rest => .either x.pattern (patternOfAny rest)

end

end Shape

end BlockReuse.Text.Pattern
