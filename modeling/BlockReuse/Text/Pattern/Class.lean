import BlockReuse.Text.Pattern.Escape

/-!
# Classes — sets of characters between brackets
-/

set_option autoImplicit false

namespace BlockReuse.Text.Pattern

/-- Reads a character or a kind of characters, of which at least a character is left. -/
def readMember (c : Char) : Reading Primitive := do
  if c = '\\' then readEscape
  else
    let start ← Reading.offset
    Reading.drop 1
    return .literal ⟨⟨start, start + 1⟩, c, false⟩

/-- The members that a primitive stands for. -/
def Primitive.members : Primitive → Reading Members
  | .literal l => return .literal l
  | .kind span negated k => return .kind span negated k
  | .property span needsValue => return .property span needsValue
  | p => Reading.fail .classEscape p.span.start p.span.stop

/-- The character at an end of a range. -/
def Primitive.rangeEnd : Primitive → Reading Literal
  | .literal l => return l
  | p => Reading.fail .rangeEnd p.span.start p.span.stop

/-- Fails for the class that is opened in a span. -/
def failUnclosed {α : Type} (opened : Span) : Reading α :=
  Reading.fail .unclosedClass opened.start opened.stop

/-- Reads a member of a class or a range, of which at least a character is left. A hyphen in front
of another or of the closing bracket does not make a range. -/
def readRange (opened : Span) (c : Char) : Reading Members := do
  let first ← readMember c
  Reading.skip
  match ← Reading.next? with
  | none => failUnclosed opened
  | some '-' =>
    match (← get).second? with
    | some ']' => first.members
    | some '-' => first.members
    | _ =>
      Reading.step
      match ← Reading.next? with
      | none => failUnclosed opened
      | some d =>
        let last ← readMember d
        let low ← first.rangeEnd
        let high ← last.rangeEnd
        let span : Span := ⟨low.span.start, high.span.stop⟩
        if high.char < low.char then Reading.fail .rangeOrder span.start span.stop
        return .range span low high
  | some _ => first.members

/-- Reads the hyphens that stand for themselves at the head of a class, at most so many. -/
def readHyphens (start : Nat) : Nat → List Members → Reading (List Members)
  | 0, found => return found
  | fuel + 1, found => do
    match ← Reading.next? with
    | some '-' =>
      let here ← Reading.offset
      Reading.step
      if ← Reading.isDone then Reading.fail .unclosedClass start start
      readHyphens start fuel (.literal ⟨⟨here, here + 1⟩, '-', false⟩ :: found)
    | _ => return found

/-- The head of a class. -/
structure ClassHead where
  span : Span
  negated : Bool
  /-- The characters that stand for themselves there, the last one first. -/
  members : List Members

/-- Reads the head of a class, whose bracket is next. The fuel is for the characters left. -/
def readClassHead (fuel : Nat) : Reading ClassHead := do
  let start ← Reading.offset
  let stepOn : Reading Unit := do
    Reading.step
    if ← Reading.isDone then Reading.fail .unclosedClass start (← Reading.offset)
  stepOn
  let negated := (← Reading.next?) == some '^'
  if negated then stepOn
  let hyphens ← readHyphens start fuel []
  if hyphens.isEmpty && (← Reading.next?) == some ']' then
    let here ← Reading.offset
    stepOn
    return ⟨⟨start, ← Reading.offset⟩, negated, [.literal ⟨⟨here, here + 1⟩, ']', false⟩]⟩
  return ⟨⟨start, ← Reading.offset⟩, negated, hyphens⟩

/-- The named kind that a text starts with, whether it is negated, and how long its name is. -/
def namedKind? (text : List Char) : Option (NamedKind × Bool × Nat) :=
  match text with
  | '[' :: ':' :: rest =>
    let negated := rest.head? == some '^'
    let rest := if negated then rest.tail else rest
    let name := rest.takeWhile (· != ':')
    match rest.dropWhile (· != ':'), NamedKind.ofName? name with
    | ':' :: ']' :: _, some kind => some (kind, negated, name.length + (if negated then 5 else 4))
    | _, _ => none
  | _ => none

/-- What has been read of a class. -/
structure ClassSoFar where
  opened : Span
  /-- The operator in front of the present members, and what stands in front of it. -/
  pending : Option (SetOperator × Members)
  /-- Where the present members start. -/
  start : Nat
  /-- The present members, the last one first. -/
  members : List Members

namespace ClassSoFar

def ofHead (head : ClassHead) : ClassSoFar := ⟨head.span, none, head.span.stop, head.members⟩

def push (s : ClassSoFar) (m : Members) : ClassSoFar := { s with members := m :: s.members }

/-- All that has been read. -/
def complete (s : ClassSoFar) : Members :=
  let right := Members.ofReversed s.start s.members
  match s.pending with
  | none => right
  | some (op, left) => .operation ⟨left.span.start, right.span.stop⟩ op left right

/-- Goes on behind an operator. -/
def operate (s : ClassSoFar) (op : SetOperator) (start : Nat) : ClassSoFar :=
  ⟨s.opened, some (op, s.complete), start, []⟩

end ClassSoFar

/-- Reads the members of a class up to and with its closing bracket. Every member takes at least a
character and a unit of fuel. -/
def readMembers : Nat → ClassSoFar → Reading Members
  | 0, s => failUnclosed s.opened
  | fuel + 1, s => do
    Reading.skip
    let here ← Reading.offset
    let operator (op : SetOperator) : Reading Members := do
      Reading.drop 2
      readMembers fuel (s.operate op (here + 2))
    let text ← Reading.rest
    match text with
    | [] => failUnclosed s.opened
    | ']' :: _ =>
      Reading.drop 1
      return s.complete
    | '&' :: '&' :: _ => operator .intersection
    | '-' :: '-' :: _ => operator .difference
    | '~' :: '~' :: _ => operator .symmetricDifference
    | '[' :: _ =>
      match namedKind? text with
      | some (kind, negated, width) =>
        Reading.drop width
        readMembers fuel (s.push (.named ⟨here, here + width⟩ negated kind))
      | none =>
        let head ← readClassHead fuel
        let inner ← readMembers fuel (.ofHead head)
        let span : Span := ⟨head.span.start, ← Reading.offset⟩
        readMembers fuel (s.push (.bracketed span head.negated inner))
    | c :: _ => do
      let m ← readRange s.opened c
      readMembers fuel (s.push m)

/-- Reads a class, whose bracket is next. The fuel is for the characters left. -/
def readClass (fuel : Nat) : Reading Spelling := do
  let head ← readClassHead fuel
  let members ← readMembers fuel (.ofHead head)
  return .bracketed ⟨head.span.start, ← Reading.offset⟩ head.negated members

end BlockReuse.Text.Pattern
