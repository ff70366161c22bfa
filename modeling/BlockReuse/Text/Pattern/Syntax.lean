import BlockReuse.Text.CharRange
import BlockReuse.Text.Pattern.Error

/-!
# Spelled patterns — what the parts of a written pattern say

Each part keeps the place where it is written, so that what is wrong with its meaning can be shown
there.
-/

set_option autoImplicit false

namespace BlockReuse.Text.Pattern

/-! ## Flags -/

/-- How the characters of a pattern are to be understood. -/
inductive Flag where
  | ignoreCase
  | manyLines
  | dotAll
  | swapGreed
  | unicode
  | returnLines
  | spaced
  deriving DecidableEq, Repr

def Flag.ofLetter? : Char → Option Flag
  | 'i' => some ignoreCase
  | 'm' => some manyLines
  | 's' => some dotAll
  | 'U' => some swapGreed
  | 'u' => some unicode
  | 'R' => some returnLines
  | 'x' => some spaced
  | _ => none

/-- Flags that are set or cleared. -/
abbrev Settings := List (Flag × Bool)

/-! ## Characters and kinds of characters -/

/-- A character, and whether it is written as a byte. -/
structure Literal where
  span : Span
  char : Char
  isByte : Bool
  deriving DecidableEq, Repr

/-- A kind of characters that has a letter. -/
inductive Kind where
  | digit
  | space
  | word
  deriving DecidableEq, Repr

/-- A kind of ASCII characters that has a name. -/
inductive NamedKind where
  | alnum | alpha | ascii | blank | cntrl | digit | graph | lower | print | punct | space | upper
  | word | xdigit
  deriving DecidableEq, Repr

namespace NamedKind

def ofName? (name : List Char) : Option NamedKind :=
  match String.ofList name with
  | "alnum" => some alnum
  | "alpha" => some alpha
  | "ascii" => some ascii
  | "blank" => some blank
  | "cntrl" => some cntrl
  | "digit" => some digit
  | "graph" => some graph
  | "lower" => some lower
  | "print" => some print
  | "punct" => some punct
  | "space" => some space
  | "upper" => some upper
  | "word" => some word
  | "xdigit" => some xdigit
  | _ => none

/-- The characters of a kind. -/
def members (kind : NamedKind) : CharRanges :=
  let span (low high : Char) : CharRange := ⟨low.toNat, high.toNat⟩
  match kind with
  | alnum => [span '0' '9', span 'A' 'Z', span 'a' 'z']
  | alpha => [span 'A' 'Z', span 'a' 'z']
  | ascii => [span '\x00' '\x7f']
  | blank => [.single '\t', .single ' ']
  | cntrl => [span '\x00' '\x1f', .single '\x7f']
  | digit => [span '0' '9']
  | graph => [span '!' '~']
  | lower => [span 'a' 'z']
  | print => [span ' ' '~']
  | punct => [span '!' '/', span ':' '@', span '[' '\x60', span '\x7b' '~']
  | space => [span '\t' '\r', .single ' ']
  | upper => [span 'A' 'Z']
  | word => [span '0' '9', span 'A' 'Z', .single '_', span 'a' 'z']
  | xdigit => [span '0' '9', span 'A' 'F', span 'a' 'f']

end NamedKind

/-- The ASCII characters of a kind. -/
def Kind.named : Kind → NamedKind
  | digit => .digit
  | space => .space
  | word => .word

/-- How two sets of characters are combined. -/
inductive SetOperator where
  | intersection
  | difference
  | symmetricDifference
  deriving DecidableEq, Repr

def SetOperator.apply : SetOperator → CharRanges → CharRanges → CharRanges
  | intersection => CharRanges.intersection
  | difference => CharRanges.difference
  | symmetricDifference => CharRanges.symmetricDifference

/-- A set of characters, as it is written between brackets. -/
inductive Members where
  | none (span : Span)
  | literal (l : Literal)
  | range (span : Span) (low high : Literal)
  | kind (span : Span) (negated : Bool) (kind : Kind)
  | named (span : Span) (negated : Bool) (kind : NamedKind)
  /-- A property of the Unicode standard, and whether it would need a value. -/
  | property (span : Span) (needsValue : Bool)
  | bracketed (span : Span) (negated : Bool) (members : Members)
  | union (span : Span) (items : List Members)
  | operation (span : Span) (op : SetOperator) (left right : Members)

def Members.span : Members → Span
  | none span => span
  | literal l => l.span
  | range span _ _ => span
  | kind span _ _ => span
  | named span _ _ => span
  | property span _ => span
  | bracketed span _ _ => span
  | union span _ => span
  | operation span _ _ _ => span

/-- The members that are written one behind the other, the last one first; there are none at
`start` if the list is empty. -/
def Members.ofReversed (start : Nat) (items : List Members) : Members :=
  match items with
  | [] => none ⟨start, start⟩
  | [item] => item
  | last :: _ =>
    let inOrder := items.reverse
    union ⟨(inOrder.head?.map fun m => m.span.start).getD start, last.span.stop⟩ inOrder

/-! ## Patterns -/

/-- Where a word starts or ends. -/
inductive WordEdge where
  /-- Where a word starts or ends. -/
  | either
  /-- Anywhere else. -/
  | neither
  | start
  | stop
  /-- Where no word goes on from the left. -/
  | startHalf
  /-- Where no word goes on to the right. -/
  | stopHalf
  deriving DecidableEq, Repr

/-- What a place has to be. -/
inductive Assertion where
  | lineStart
  | lineEnd
  | textStart
  | textEnd
  | word (edge : WordEdge)
  deriving DecidableEq, Repr

/-- How often a part is repeated, and whether as often as possible or as seldom. -/
structure Count where
  least : Nat
  most : Option Nat
  greedy : Bool
  deriving DecidableEq, Repr

/-- A pattern as it is written. -/
inductive Spelling where
  | empty (span : Span)
  | settings (span : Span) (settings : Settings)
  | literal (l : Literal)
  | dot (span : Span)
  | assertion (span : Span) (assertion : Assertion)
  | kind (span : Span) (negated : Bool) (kind : Kind)
  | property (span : Span) (needsValue : Bool)
  | bracketed (span : Span) (negated : Bool) (members : Members)
  | repetition (span : Span) (count : Count) (body : Spelling)
  | group (span : Span) (captures : Bool) (settings : Settings) (body : Spelling)
  | sequence (span : Span) (items : List Spelling)
  | choice (span : Span) (branches : List Spelling)

namespace Spelling

def span : Spelling → Span
  | empty span => span
  | settings span _ => span
  | literal l => l.span
  | dot span => span
  | assertion span _ => span
  | kind span _ _ => span
  | property span _ => span
  | bracketed span _ _ => span
  | repetition span _ _ => span
  | group span _ _ _ => span
  | sequence span _ => span
  | choice span _ => span

/-- The items that fill a span, the last one first. -/
def ofItems (span : Span) (items : List Spelling) : Spelling :=
  match items with
  | [] => empty span
  | [item] => item
  | _ => sequence span items.reverse

/-- The branches that fill a span: the earlier ones, the last of them first, and the last one. -/
def ofBranches (span : Span) (earlier : List Spelling) (last : Spelling) : Spelling :=
  if earlier.isEmpty then last else choice span (last :: earlier).reverse

end Spelling

/-! ## Depth -/

/-- One level deeper, if that is not too deep. -/
def deeper (span : Span) (depth : Nat) : Except PatternError Nat :=
  if depth < depthLimit then .ok (depth + 1) else .error (.misspelled .tooDeep span none)

mutual

/-- Checks how deep members are nested, when they stand at a depth themselves. -/
def Members.checkDepth (depth : Nat) : Members → Except PatternError Unit
  | .bracketed span _ members => do members.checkDepth (← deeper span depth)
  | .union span items => do checkDepthOfMembers (← deeper span depth) items
  | .operation span _ left right => do
    let depth ← deeper span depth
    left.checkDepth depth
    right.checkDepth depth
  | _ => .ok ()

def checkDepthOfMembers (depth : Nat) : List Members → Except PatternError Unit
  | [] => .ok ()
  | item :: rest => do
    item.checkDepth depth
    checkDepthOfMembers depth rest

end

mutual

/-- Checks how deep a pattern is nested, when it stands at a depth itself. -/
def Spelling.checkDepth (depth : Nat) : Spelling → Except PatternError Unit
  | .bracketed span _ members => do members.checkDepth (← deeper span depth)
  | .repetition span _ body => do body.checkDepth (← deeper span depth)
  | .group span _ _ body => do body.checkDepth (← deeper span depth)
  | .sequence span items => do checkDepthOfSpellings (← deeper span depth) items
  | .choice span branches => do checkDepthOfSpellings (← deeper span depth) branches
  | _ => .ok ()

def checkDepthOfSpellings (depth : Nat) : List Spelling → Except PatternError Unit
  | [] => .ok ()
  | item :: rest => do
    item.checkDepth depth
    checkDepthOfSpellings depth rest

end

end BlockReuse.Text.Pattern
