import BlockReuse.Text.Alphanumeric
import BlockReuse.Text.Pattern.Class

/-!
# Reader — the parts that a written pattern is made of

Branches stand between bars, groups between parentheses, and an item may be followed by how often
it is repeated. Faults are found from left to right; a group that is never closed is one when the
pattern ends.
-/

set_option autoImplicit false

namespace BlockReuse.Text.Pattern

/-! ## Names and flags of groups -/

def isNameStart (c : Char) : Bool := c == '_' || isLetter c

def isNameChar (c : Char) : Bool :=
  c == '_' || c == '.' || c == '[' || c == ']' || isLetter c || isNumber c

/-- Reads the name of a group up to and with the angle bracket behind it. -/
def readName : Reading Unit := do
  let start ← Reading.offset
  let text ← Reading.rest
  let name := if text.head?.any isNameStart then text.takeWhile isNameChar else []
  Reading.drop name.length
  let stop ← Reading.offset
  match ← Reading.next? with
  | none => Reading.failHere .unclosedName
  | some '>' =>
    Reading.drop 1
    if name.isEmpty then Reading.fail .emptyName start start
    let span : Span := ⟨start, stop⟩
    match (← get).names.lookup (String.ofList name) with
    | some earlier => Reading.failAgain .repeatedName span earlier
    | none => modify fun s => { s with names := (String.ofList name, span) :: s.names }
  | some _ => Reading.failNext .nameCharacter

/-- What has been read of flags: the letters and the hyphen, the last one first. -/
abbrev FlagsSoFar := List (Option Flag × Span)

/-- Flags that are set in front of a hyphen and cleared behind it. -/
def settingsOf (items : FlagsSoFar) : Settings :=
  let inOrder := items.reverse.map Prod.fst
  let set := inOrder.takeWhile Option.isSome
  let cleared := inOrder.dropWhile Option.isSome
  set.filterMap (·.map fun f => (f, true)) ++ cleared.filterMap (·.map fun f => (f, false))

/-- Reads flags up to the colon or the parenthesis behind them, which is left. -/
def readFlags : Nat → FlagsSoFar → Reading Settings
  | 0, items => return settingsOf items
  | fuel + 1, items => do
    let here ← Reading.offset
    let span : Span := ⟨here, here + 1⟩
    let add (item : Option Flag) (again : PatternFault) : Reading Settings := do
      match items.lookup item with
      | some earlier => Reading.failAgain again span earlier
      | none =>
        Reading.drop 1
        if ← Reading.isDone then Reading.failHere .unfinishedFlags
        readFlags fuel ((item, span) :: items)
    let finish : Reading Settings :=
      match items with
      | (none, hyphen) :: _ => Reading.fail .danglingNegation hyphen.start hyphen.stop
      | _ => return settingsOf items
    match ← Reading.next? with
    | none => Reading.failHere .unfinishedFlags
    | some ':' => finish
    | some ')' => finish
    | some '-' => add none .repeatedNegation
    | some c =>
      match Flag.ofLetter? c with
      | some flag => add (some flag) .repeatedFlag
      | none => Reading.failNext .unknownFlag

/-! ## Heads of groups -/

/-- What stands behind an opening parenthesis. -/
inductive GroupHead where
  | group (captures : Bool) (settings : Settings)
  /-- Flags for the rest of the group around. -/
  | settings (settings : Settings)

/-- The length of the mark that asks to look around, if there is one. -/
def lookAroundMark? : List Char → Option Nat
  | '?' :: '=' :: _ => some 2
  | '?' :: '!' :: _ => some 2
  | '?' :: '<' :: '=' :: _ => some 3
  | '?' :: '<' :: '!' :: _ => some 3
  | _ => none

/-- Reads the head of a group, whose parenthesis is next. The fuel is for the characters left. -/
def readGroupHead (fuel : Nat) : Reading GroupHead := do
  let start ← Reading.offset
  Reading.step
  let here ← Reading.offset
  let text ← Reading.rest
  match lookAroundMark? text, text with
  | some width, _ => Reading.fail .lookAround start (here + width)
  | none, '?' :: 'P' :: '<' :: _ =>
    Reading.drop 3
    readName
    return .group true []
  | none, '?' :: '<' :: _ =>
    Reading.drop 2
    readName
    return .group true []
  | none, ['?'] => Reading.fail .unclosedGroup start (start + 1)
  | none, '?' :: ')' :: _ => Reading.fail .nothingToRepeat here here
  | none, '?' :: _ =>
    Reading.drop 1
    let settings ← readFlags fuel []
    let isGroup := (← Reading.next?) == some ':'
    Reading.drop 1
    return if isGroup then .group false settings else .settings settings
  | none, _ => return .group true []

/-! ## Repetitions -/

/-- Reads a number with blanks around it; there may be no digit. -/
def readNumber : Reading (Except PatternError Nat) := do
  let passBlanks : Reading Unit := modify fun s => s.leave (s.rest.dropWhile isBlank)
  passBlanks
  let start ← Reading.offset
  let digits ← Reading.all isDigit
  let stop ← Reading.offset
  passBlanks
  Reading.skip
  match ofDigits? 10 digits with
  | none => return .error (.misspelled .emptyCount ⟨start, stop⟩ none)
  | some n =>
    if n < 4294967296 then return .ok n
    else return .error (.misspelled .largeCount ⟨start, stop⟩ none)

/-- Reads whether as many repetitions are asked for as possible: a mark behind them asks for few. -/
def readGreedy : Reading Bool := do
  if (← Reading.next?) == some '?' then
    Reading.drop 1
    return false
  else return true

/-- Fails for the braces that are opened at `start`. -/
def failUnclosedCount {α : Type} (start : Nat) : Reading α := do
  Reading.fail .unclosedCount start (← Reading.offset)

/-- Reads what stands between the braces of a counted repetition that are opened at `start`. -/
def readBounds (start : Nat) : Reading (Nat × Option Nat) := do
  let first ← readNumber
  match ← Reading.next? with
  | none => failUnclosedCount start
  | some ',' =>
    Reading.step
    match ← Reading.next? with
    | none => failUnclosedCount start
    | some '\x7d' => return (← first, none)
    | some _ =>
      let least ← first
      let most ← readNumber
      return (least, some (← most))
  | some _ =>
    let n ← first
    return (n, some n)

/-- Reads the numbers of a counted repetition, whose brace is next. -/
def readCount : Reading Count := do
  let start ← Reading.offset
  Reading.step
  if ← Reading.isDone then failUnclosedCount start
  let (least, most) ← readBounds start
  if (← Reading.next?) != some '\x7d' then failUnclosedCount start
  Reading.step
  let greedy ← readGreedy
  if most.any (· < least) then Reading.fail .countOrder start (← Reading.offset)
  return ⟨least, most, greedy⟩

/-- Reads how often an item is repeated, whose mark is next. -/
def readRepetition (mark : Char) : Reading Count := do
  if mark = '\x7b' then readCount
  else
    Reading.drop 1
    let greedy ← readGreedy
    if mark = '?' then return ⟨0, some 1, greedy⟩
    else if mark = '*' then return ⟨0, none, greedy⟩
    else return ⟨1, none, greedy⟩

/-! ## Branches -/

/-- What has been read of a group or of the whole pattern. -/
structure BranchesSoFar where
  /-- Where the first branch starts. -/
  first : Nat
  /-- The complete branches, the last one first. -/
  branches : List Spelling
  /-- Where the present branch starts. -/
  start : Nat
  /-- The items of the present branch, the last one first. -/
  items : List Spelling

namespace BranchesSoFar

def ofStart (start : Nat) : BranchesSoFar := ⟨start, [], start, []⟩

def push (s : BranchesSoFar) (item : Spelling) : BranchesSoFar :=
  { s with items := item :: s.items }

/-- The present branch, which ends here. -/
def branch (s : BranchesSoFar) (stop : Nat) : Spelling := .ofItems ⟨s.start, stop⟩ s.items

/-- All branches, the last of which ends here. -/
def complete (s : BranchesSoFar) (stop : Nat) : Spelling :=
  .ofBranches ⟨s.first, stop⟩ s.branches (s.branch stop)

/-- Goes on behind a bar. -/
def next (s : BranchesSoFar) (bar : Nat) : BranchesSoFar :=
  ⟨s.first, s.branch bar :: s.branches, bar + 1, []⟩

end BranchesSoFar

/-- Blanks and comments from here on. -/
def spacedAfter (settings : Settings) (spaced : Bool) : Bool :=
  (settings.lookup .spaced).getD spaced

/-- Reads branches up to a parenthesis that closes the group around, which is left, or to the end.
Every item takes at least a character and a unit of fuel. -/
def readBranches : Nat → BranchesSoFar → Reading Spelling
  | 0, s => return s.complete s.start
  | fuel + 1, s => do
    Reading.skip
    let here ← Reading.offset
    let repeatLast (mark : Char) : Reading Spelling := do
      match s.items with
      | [] => Reading.failHere .nothingToRepeat
      | .settings _ _ :: _ => Reading.failHere .nothingToRepeat
      | last :: earlier =>
        let count ← readRepetition mark
        let span : Span := ⟨last.span.start, ← Reading.offset⟩
        readBranches fuel { s with items := .repetition span count last :: earlier }
    match ← Reading.next? with
    | none => return s.complete here
    | some ')' => return s.complete here
    | some '|' =>
      Reading.drop 1
      readBranches fuel (s.next here)
    | some '(' =>
      match ← readGroupHead fuel with
      | .settings settings =>
        modify fun i => { i with spaced := spacedAfter settings i.spaced }
        readBranches fuel (s.push (.settings ⟨here, ← Reading.offset⟩ settings))
      | .group captures settings =>
        let outside := (← get).spaced
        modify fun i => { i with spaced := spacedAfter settings i.spaced }
        let body ← readBranches fuel (.ofStart (← Reading.offset))
        modify fun i => { i with spaced := outside }
        if ← Reading.isDone then Reading.fail .unclosedGroup here (here + 1)
        Reading.drop 1
        readBranches fuel (s.push (.group ⟨here, ← Reading.offset⟩ captures settings body))
    | some '[' =>
      let item ← readClass fuel
      readBranches fuel (s.push item)
    | some '*' => repeatLast '*'
    | some '+' => repeatLast '+'
    | some '?' => repeatLast '?'
    | some '\x7b' => repeatLast '\x7b'
    | some c =>
      let item ← readPrimitive c
      readBranches fuel (s.push item.spelling)

/-- The spelling of a written pattern. -/
def Spelling.read (written : List Char) : Except PatternError Spelling := do
  let (spelling, left) ← (readBranches (written.length + 1) (.ofStart 0)).run (.ofText written)
  if !left.rest.isEmpty then
    throw (.misspelled .unopenedGroup ⟨left.offset, left.offset + 1⟩ none)
  spelling.checkDepth 0
  return spelling

end BlockReuse.Text.Pattern
