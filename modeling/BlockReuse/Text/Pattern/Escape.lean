import BlockReuse.Text.Numeral
import BlockReuse.Text.Pattern.Input

/-!
# Escapes — what a backslash and the characters behind it stand for
-/

set_option autoImplicit false

namespace BlockReuse.Text.Pattern

/-- The smallest part of a pattern. -/
inductive Primitive where
  | literal (l : Literal)
  | dot (span : Span)
  | assertion (span : Span) (assertion : Assertion)
  | kind (span : Span) (negated : Bool) (kind : Kind)
  | property (span : Span) (needsValue : Bool)

namespace Primitive

def span : Primitive → Span
  | literal l => l.span
  | dot span => span
  | assertion span _ => span
  | kind span _ _ => span
  | property span _ => span

def spelling : Primitive → Spelling
  | literal l => .literal l
  | dot span => .dot span
  | assertion span a => .assertion span a
  | kind span negated k => .kind span negated k
  | property span needsValue => .property span needsValue

end Primitive

/-! ## Characters by number -/

/-- The character with a number in hexadecimal digits. -/
def charOfHex? (digits : List Char) : Option Char :=
  (ofDigits? 16 digits).bind fun n => if n.isValidChar then some (Char.ofNat n) else none

/-- Reads so many hexadecimal digits, the first of which is next. -/
def readHexDigits : Nat → List Char → Reading (List Char)
  | 0, digits => return digits
  | n + 1, digits => do
    match ← Reading.next? with
    | none => Reading.failHere .unfinishedEscape
    | some c =>
      if isHexDigit c then
        Reading.step
        readHexDigits n (digits ++ [c])
      else Reading.failNext .hexDigit

/-- Reads a number between braces, the first of which is next. -/
def readHexBraces : Reading Char := do
  let brace ← Reading.offset
  Reading.step
  let digits ← Reading.all isHexDigit
  let stop ← Reading.offset
  match ← Reading.next? with
  | none => Reading.fail .unfinishedEscape brace stop
  | some '\x7d' =>
    Reading.step
    if digits.isEmpty then Reading.fail .emptyHex brace (← Reading.offset)
    match charOfHex? digits with
    | some c => return c
    | none => Reading.fail .noCharacter (brace + 1) stop
  | some _ => Reading.failNext .hexDigit

/-- Reads a character by its number behind the letter that says how many digits there are. -/
def readHex (start : Nat) (digits : Nat) : Reading Literal := do
  Reading.step
  match ← Reading.next? with
  | none => Reading.failHere .unfinishedEscape
  | some '\x7b' =>
    let c ← readHexBraces
    return ⟨⟨start, ← Reading.offset⟩, c, false⟩
  | some _ =>
    let first ← Reading.offset
    let number ← readHexDigits digits []
    let stop ← Reading.offset
    match charOfHex? number with
    | some c => return ⟨⟨start, stop⟩, c, digits == 2⟩
    | none => Reading.fail .noCharacter first stop

/-! ## Properties -/

/-- The name of a property as it is looked up: ASCII letters in lower case, without what joins
words, and without a leading "is". -/
def normalName (name : List Char) : List Char :=
  let lower := name.map Char.toLower
  let bare := if lower.take 2 = ['i', 's'] then lower.drop 2 else lower
  bare.filter fun c => decide (c.toNat < 128) && c != ' ' && c != '_' && c != '-'

/-- Whether a name is that of a value without a property. -/
def isValueName (name : List Char) : Bool :=
  [['c', 'f'], ['s', 'c'], ['l', 'c']].contains (normalName name)

/-- Reads the name of a property behind its letter. -/
def readProperty (start : Nat) : Reading Primitive := do
  Reading.step
  match ← Reading.next? with
  | none => Reading.failHere .unfinishedEscape
  | some '\x7b' =>
    Reading.step
    let name ← Reading.all (· != '\x7d')
    if ← Reading.isDone then Reading.failHere .unfinishedEscape
    Reading.drop 1
    return .property ⟨start, ← Reading.offset⟩
      (isValueName name && !name.contains ':' && !name.contains '=')
  | some '\\' => Reading.failNext .badProperty
  | some _ =>
    Reading.step
    return .property ⟨start, ← Reading.offset⟩ false

/-! ## Edges of words -/

def isEdgeNameChar (c : Char) : Bool := c.isAlpha || c == '-'

def WordEdge.ofName? (name : List Char) : Option WordEdge :=
  match String.ofList name with
  | "start" => some start
  | "end" => some stop
  | "start-half" => some startHalf
  | "end-half" => some stopHalf
  | _ => none

/-- Reads which edge of a word is meant, if braces with a name are next. Braces with anything else
are left: they may be a repetition. -/
def readWordEdge (start : Nat) : Reading WordEdge := do
  match ← Reading.next? with
  | some '\x7b' =>
    let before ← get
    Reading.step
    match ← Reading.next? with
    | none => Reading.fail .unfinishedWordEdge start (← Reading.offset)
    | some c =>
      if isEdgeNameChar c then
        let first ← Reading.offset
        let name ← Reading.all isEdgeNameChar
        let stop ← Reading.offset
        if (← Reading.next?) != some '\x7d' then
          Reading.fail .unclosedWordEdge before.offset stop
        Reading.drop 1
        match WordEdge.ofName? name with
        | some edge => return edge
        | none => Reading.fail .unknownWordEdge first stop
      else
        set before
        return .either
  | _ => return .either

/-! ## All escapes -/

/-- The characters that have a meaning in patterns. -/
def isMetaChar (c : Char) : Bool := "\\.+*?()|[]\x7b\x7d^$#&-~".toList.contains c

/-- Whether a character stands for itself behind a backslash: every ASCII character but letters,
digits and angle brackets. -/
def isEscapable (c : Char) : Bool :=
  isMetaChar c || decide (c.toNat < 128) && !c.isAlphanum && c != '<' && c != '>'

/-- The controls that have a letter. -/
def controlOfLetter? : Char → Option Char
  | 'a' => some '\x07'
  | 'f' => some '\x0c'
  | 't' => some '\t'
  | 'n' => some '\n'
  | 'r' => some '\r'
  | 'v' => some '\x0b'
  | _ => none

/-- The kinds that have a letter, and whether the letter stands for all other characters. -/
def kindOfLetter? : Char → Option (Bool × Kind)
  | 'd' => some (false, .digit)
  | 's' => some (false, .space)
  | 'w' => some (false, .word)
  | 'D' => some (true, .digit)
  | 'S' => some (true, .space)
  | 'W' => some (true, .word)
  | _ => none

def Assertion.ofLetter? : Char → Option Assertion
  | 'A' => some textStart
  | 'z' => some textEnd
  | 'B' => some (word .neither)
  | '<' => some (word .start)
  | '>' => some (word .stop)
  | _ => none

/-- The number of digits behind a letter for a character by its number. -/
def hexDigitsOfLetter? : Char → Option Nat
  | 'x' => some 2
  | 'u' => some 4
  | 'U' => some 8
  | _ => none

/-- Reads an escape, whose backslash is next. -/
def readEscape : Reading Primitive := do
  let start ← Reading.offset
  Reading.drop 1
  match ← Reading.next? with
  | none => Reading.fail .unfinishedEscape start (start + 1)
  | some c =>
    let span : Span := ⟨start, start + 2⟩
    if c.isDigit then Reading.fail .backReference start (start + 2)
    match hexDigitsOfLetter? c, kindOfLetter? c with
    | some digits, _ => return .literal (← readHex start digits)
    | none, some (negated, kind) =>
      Reading.drop 1
      return .kind span negated kind
    | none, none =>
      if c = 'p' ∨ c = 'P' then readProperty start
      else
        Reading.drop 1
        if isEscapable c then return .literal ⟨span, c, false⟩
        match controlOfLetter? c, Assertion.ofLetter? c with
        | some control, _ => return .literal ⟨span, control, false⟩
        | none, some a => return .assertion span a
        | none, none =>
          if c = 'b' then
            let edge ← readWordEdge start
            return .assertion ⟨start, ← Reading.offset⟩ (.word edge)
          else Reading.fail .unknownEscape start (start + 2)

/-- Reads the smallest part of a pattern, of which at least a character is left. -/
def readPrimitive (c : Char) : Reading Primitive := do
  let start ← Reading.offset
  let span : Span := ⟨start, start + 1⟩
  match c with
  | '\\' => readEscape
  | '.' =>
    Reading.drop 1
    return .dot span
  | '^' =>
    Reading.drop 1
    return .assertion span .lineStart
  | '$' =>
    Reading.drop 1
    return .assertion span .lineEnd
  | _ =>
    Reading.drop 1
    return .literal ⟨span, c, false⟩

end BlockReuse.Text.Pattern
