import BlockReuse.Text.Pattern.Shape

/-!
# Plain texts — shapes that are searched for without automata

A shape that stands for a few short texts, and has no groups and asks for no places, is searched for
by comparing texts. Since a set without members stands for no text at all, a part of a shape that
needs one stands for none either, however large it is.
-/

set_option autoImplicit false

namespace BlockReuse.Text.Pattern

/-- Texts, by their bytes. -/
abbrev Texts := List (List UInt8)

namespace Texts

/-- The most characters of a set that are tried one by one, and the most repetitions. -/
def fewLimit : Nat := 10

/-- The most bytes of a text. -/
def lengthLimit : Nat := 100

/-- The most texts. -/
def numberLimit : Nat := 250

/-- The texts, if none is too long. -/
def short? (texts : Texts) : Option Texts :=
  if texts.all fun t => decide (t.length ≤ lengthLimit) then some texts else none

/-- Each text of one list with each of the other behind it. -/
def product? (a b : Texts) : Option Texts :=
  if numberLimit < a.length * b.length then none
  else short? (a.flatMap fun x => b.map (x ++ ·)).eraseDups

/-- The texts of both lists. -/
def sum? (a b : Texts) : Option Texts :=
  if numberLimit < a.length + b.length then none else some (a ++ b).eraseDups

/-- Texts so many times one behind the other. -/
def power? (a : Texts) : Nat → Option Texts
  | 0 => some [[]]
  | n + 1 => do (← power? a n).product? a

/-- The characters of a set, if they are few. -/
def ofSet? (members : CharRanges) : Option Texts :=
  let sizes := members.map fun r => r.high - r.low + 1
  if fewLimit < sizes.foldl (· + ·) 0 then none
  else
    some (members.flatMap fun r =>
      (List.range' r.low (r.high - r.low + 1)).map fun n => String.utf8EncodeChar (Char.ofNat n))

/-- What a repetition of texts stands for, if that is few texts. No text is no text any number of
times. -/
def repeated? (count : Count) (a : Texts) : Option Texts :=
  if count.least = 0 then
    if count.most = some 1 || a.isEmpty then sum? a [[]] else none
  else if a.isEmpty then some []
  else if count.most = some count.least && decide (count.least ≤ fewLimit) then
    power? a count.least
  else none

/-- What all texts start with. -/
def commonStart : Texts → List UInt8
  | [] => []
  | [t] => t
  | t :: rest =>
    let common := commonStart rest
    ((t.zip common).takeWhile fun (x, y) => x == y).map Prod.fst

/-- Whether texts can be compared one by one: there are some, but few, none is empty, and they are
not told apart only by what stands behind a long common start. -/
def areComparable (texts : Texts) : Bool :=
  !texts.isEmpty && decide (texts.length ≤ fewLimit) && texts.all (!·.isEmpty) &&
    (decide (texts.length = 1) || decide ((commonStart texts).length ≤ 4))

end Texts

mutual

/-- The texts that a shape stands for, if they are few and it asks for nothing else. -/
def Shape.texts? : Shape → Option Texts
  | .nothing => some [[]]
  | .text chars => Texts.short? [chars.flatMap String.utf8EncodeChar]
  | .set _ members => Texts.ofSet? members
  | .look _ => none
  | .repeated count body => do Texts.repeated? count (← body.texts?)
  | .capture _ _ => none
  | .sequence items => textsOfAll? [[]] items
  | .choice branches => textsOfAny? branches

/-- The texts of items one behind the other, behind given texts. Behind no text nothing matters. -/
def textsOfAll? (before : Texts) : List Shape → Option Texts
  | [] => some before
  | x :: rest =>
    if before.isEmpty then some []
    else do textsOfAll? (← before.product? (← x.texts?)) rest

/-- The texts of branches. -/
def textsOfAny? : List Shape → Option Texts
  | [] => some []
  | x :: rest => do Texts.sum? (← x.texts?) (← textsOfAny? rest)

end

mutual

/-- Whether a shape has no groups and asks for no places, be it where nothing can be found. -/
def Shape.isBare : Shape → Bool
  | .look _ => false
  | .capture _ _ => false
  | .repeated _ body => body.isBare
  | .sequence items => allBare items
  | .choice branches => allBare branches
  | _ => true

def allBare : List Shape → Bool
  | [] => true
  | x :: rest => x.isBare && allBare rest

end

/-- Whether a shape is searched for by comparing texts. -/
def Shape.isPlain (x : Shape) : Bool := x.isBare && x.texts?.any Texts.areComparable

end BlockReuse.Text.Pattern
