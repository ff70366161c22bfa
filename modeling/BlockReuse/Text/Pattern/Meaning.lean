import BlockReuse.Text.Pattern.Automaton
import BlockReuse.Text.Pattern.Plain
import BlockReuse.Text.Pattern.Reader

/-!
# Meaning — the pattern that a spelling stands for

Flags say how characters are understood. Without the Unicode flag a class holds ASCII characters
only, so that it cannot hold all characters but some; with it, case always matters, and there are
no kinds of characters and no properties. A pattern whose automata would be too large is refused.
-/

set_option autoImplicit false

namespace BlockReuse.Text.Pattern

/-! ## Flags -/

/-- The flags that matter to the meaning. -/
structure Flags where
  ignoreCase : Bool
  manyLines : Bool
  dotAll : Bool
  swapGreed : Bool
  unicode : Bool
  returnLines : Bool
  deriving DecidableEq, Repr

namespace Flags

def start : Flags := ⟨false, false, false, false, true, false⟩

def set (flags : Flags) : Flag × Bool → Flags
  | (.ignoreCase, value) => { flags with ignoreCase := value }
  | (.manyLines, value) => { flags with manyLines := value }
  | (.dotAll, value) => { flags with dotAll := value }
  | (.swapGreed, value) => { flags with swapGreed := value }
  | (.unicode, value) => { flags with unicode := value }
  | (.returnLines, value) => { flags with returnLines := value }
  | (.spaced, _) => flags

def setAll (flags : Flags) (settings : Settings) : Flags := settings.foldl set flags

end Flags

def failAt {α : Type} (fault : PatternFault) (span : Span) : Except PatternError α :=
  .error (.misspelled fault span none)

/-! ## Sets of characters -/

/-- A set of characters, and whether its members may have other cases that are not in it. -/
structure CharSet where
  members : CharRanges
  cased : Bool

namespace CharSet

def empty : CharSet := ⟨[], false⟩

/-- The characters between two. -/
def between (low high : Char) : CharSet := ⟨[⟨low.toNat, high.toNat⟩], true⟩

def union (a b : CharSet) : CharSet := ⟨a.members.union b.members, a.cased || b.cased⟩

def combine (op : SetOperator) (a b : CharSet) : CharSet :=
  ⟨op.apply a.members b.members, a.cased || b.cased⟩

/-- The set with the other cases of its members, if case does not matter. The cases of ASCII
letters are known. -/
def fold (flags : Flags) (span : Span) (a : CharSet) : Except PatternError CharSet :=
  if !flags.ignoreCase then .ok a
  else if flags.unicode then
    if a.cased && !a.members.isEmpty then failAt .unicodeCase span else .ok a
  else .ok ⟨a.members.withCases, false⟩

/-- The set or all other characters, which have to be text. -/
def finish (flags : Flags) (span : Span) (negated : Bool) (a : CharSet) :
    Except PatternError CharSet := do
  let folded ← a.fold flags span
  if !negated then return folded
  else if flags.unicode then return { folded with members := folded.members.complement }
  else failAt .notText span

/-- The characters of a kind, which is known for ASCII only. -/
def ofKind (flags : Flags) (span : Span) (negated : Bool) (kind : Kind) :
    Except PatternError CharSet :=
  if flags.unicode then failAt .unicodeKind span
  else if negated then failAt .notText span
  else .ok ⟨kind.named.members, true⟩

/-- A character from the set. -/
def shape (flags : Flags) (a : CharSet) : Shape := .ofSet flags.unicode a.members

end CharSet

/-- Fails for a property, none of which is known. -/
def failProperty {α : Type} (flags : Flags) (span : Span) (needsValue : Bool) :
    Except PatternError α :=
  if !flags.unicode then failAt .unicodeForbidden span
  else if needsValue then failAt .unknownPropertyValue span
  else failAt .unknownProperty span

namespace Literal

/-- The character, which must be text: a byte is one only if it is an ASCII character. -/
def text (flags : Flags) (l : Literal) : Except PatternError Char :=
  if !flags.unicode && l.isByte && decide (128 ≤ l.char.toNat) then failAt .notText l.span
  else .ok l.char

/-- The character as the member of a class. -/
def member (flags : Flags) (l : Literal) : Except PatternError Char := do
  let c ← l.text flags
  if !flags.unicode && decide (128 ≤ c.toNat) then failAt .unicodeForbidden l.span
  else return c

end Literal

mutual

/-- The characters that members stand for. -/
def Members.meaning (flags : Flags) : Members → Except PatternError CharSet
  | .none _ => .ok .empty
  | .literal l => do
    let c ← l.member flags
    return .between c c
  | .range _ low high => do
    let low ← low.member flags
    let high ← high.member flags
    return .between low high
  | .kind span negated kind => CharSet.ofKind flags span negated kind
  | .named span negated kind => (CharSet.mk kind.members true).finish flags span negated
  | .property span needsValue => failProperty flags span needsValue
  | .bracketed span negated members => do
    let inner ← members.meaning flags
    inner.finish flags span negated
  | .union _ items => unionMeaning flags .empty items
  | .operation _ op left right => do
    let a ← left.meaning flags
    let b ← right.meaning flags
    let b ← b.fold flags right.span
    let a ← a.fold flags left.span
    return a.combine op b

/-- A set with the characters that one of several members stands for. -/
def unionMeaning (flags : Flags) (set : CharSet) : List Members → Except PatternError CharSet
  | [] => .ok set
  | item :: rest => do unionMeaning flags (set.union (← item.meaning flags)) rest

end

/-! ## Spellings -/

/-- The places that an assertion is about. -/
def Assertion.look (flags : Flags) : Assertion → Look
  | lineStart => if flags.manyLines then .lineStart flags.returnLines else .textStart
  | lineEnd => if flags.manyLines then .lineEnd flags.returnLines else .textEnd
  | textStart => .textStart
  | textEnd => .textEnd
  | word edge => .word flags.unicode edge

/-- A character, with its other case if case does not matter. -/
def Literal.shape (flags : Flags) (l : Literal) : Except PatternError Shape := do
  let c ← l.text flags
  if !flags.ignoreCase then return .text [c]
  else if flags.unicode then failAt .unicodeCase l.span
  else return .ofSet false (CharRanges.withCases [.single c])

/-- Any character, line ends excepted unless flags say otherwise. -/
def dotShape (flags : Flags) (span : Span) : Except PatternError Shape :=
  if !flags.unicode then failAt .notText span
  else
    let excluded := if flags.dotAll then [] else if flags.returnLines then ['\n', '\r'] else ['\n']
    .ok (.ofSet true (CharRanges.ofList (excluded.map .single)).complement)

/-- How often something is repeated; a flag swaps many and few. -/
def Count.meaning (flags : Flags) (count : Count) : Count :=
  { count with greedy := count.greedy != flags.swapGreed }

mutual

/-- What a spelling stands for under flags, and the flags behind it. -/
def Spelling.meaning (flags : Flags) : Spelling → Except PatternError (Shape × Flags)
  | .empty _ => .ok (.nothing, flags)
  | .settings _ settings => .ok (.nothing, flags.setAll settings)
  | .literal l => do return (← l.shape flags, flags)
  | .dot span => do return (← dotShape flags span, flags)
  | .assertion _ a => .ok (.look (a.look flags), flags)
  | .kind span negated kind => do
    return ((← CharSet.ofKind flags span negated kind).shape flags, flags)
  | .property span needsValue => failProperty flags span needsValue
  | .bracketed span negated members => do
    let inner ← members.meaning flags
    return ((← inner.finish flags span negated).shape flags, flags)
  | .repetition _ count body => do
    let (x, flags) ← body.meaning flags
    return (.times (count.meaning flags) x, flags)
  | .group span captures settings body => do
    let (x, _) ← body.meaning (flags.setAll settings)
    return (if captures then .capture span.start x else x, flags)
  | .sequence _ items => do
    let (xs, flags) ← meanings flags items
    return (.inSequence xs, flags)
  | .choice _ branches => do
    let (xs, flags) ← meanings flags branches
    return (.oneOf xs, flags)

/-- What spellings stand for, each under the flags that the one before leaves. -/
def meanings (flags : Flags) : List Spelling → Except PatternError (List Shape × Flags)
  | [] => .ok ([], flags)
  | item :: rest => do
    let (x, flags) ← item.meaning flags
    let (xs, flags) ← meanings flags rest
    return (x :: xs, flags)

end

/-- The pattern that a shape stands for, if it can be searched for. Edges of words of all scripts
are not known. -/
def Shape.checked (x : Shape) : Except PatternError Pattern :=
  if x.isPlain then .ok x.pattern
  else if !x.fitsForwards then .error .tooLarge
  else if x.asksForWords then .error .unicodeWords
  else if !x.fitsBackwards then .error .tooLarge
  else .ok x.pattern

/-- The pattern that a text spells. -/
def read (written : String) : Except PatternError Pattern := do
  let spelling ← Spelling.read written.toList
  let (shape, _) ← spelling.meaning .start
  shape.checked

end BlockReuse.Text.Pattern
