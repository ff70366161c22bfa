import BlockReuse.Text.Blank
import BlockReuse.Text.Pattern.Syntax

/-!
# Reading — what is left of a written pattern, and steps over it

A step either fails at a span of the pattern or leaves less of it. Blanks and comments may be set to
mean nothing; then they are passed over wherever a reader says so.
-/

set_option autoImplicit false

namespace BlockReuse.Text.Pattern

/-- What is left of a pattern. -/
structure Input where
  /-- How many characters have been read. -/
  offset : Nat
  rest : List Char
  /-- Whether blanks and comments mean nothing. -/
  spaced : Bool
  /-- The names of groups, and where they are given. -/
  names : List (String × Span)

namespace Input

def ofText (written : List Char) : Input := ⟨0, written, false, []⟩

/-- Passes over some characters. -/
def drop (s : Input) (n : Nat) : Input :=
  { s with offset := s.offset + (s.rest.take n).length, rest := s.rest.drop n }

/-- Passes over what stands in front of an end of the rest. -/
def leave (s : Input) (left : List Char) : Input :=
  { s with offset := s.offset + (s.rest.length - left.length), rest := left }

/-- What is left behind blanks and comments. -/
def behindBlanks (inComment : Bool) : List Char → List Char
  | [] => []
  | c :: cs =>
    if inComment then behindBlanks (c != '\n') cs
    else if isBlank c then behindBlanks false cs
    else if c = '#' then behindBlanks true cs
    else c :: cs

/-- Passes over what means nothing. -/
def skip (s : Input) : Input :=
  if s.spaced then s.leave (behindBlanks false s.rest) else s

/-- The character behind the next one, past blanks and one comment mark if they mean nothing. -/
def second? (s : Input) : Option Char :=
  let plain := s.rest.tail
  if s.spaced then
    let marked := plain.dropWhile isBlank
    let found := if marked.head? = some '#' then marked.tail.dropWhile isBlank else marked
    (found.head?).or plain.head?
  else plain.head?

end Input

/-- A step over a written pattern. -/
abbrev Reading := StateT Input (Except PatternError)

namespace Reading

/-- Fails with a fault in a part of the pattern. -/
def fail {α : Type} (fault : PatternFault) (start stop : Nat) : Reading α :=
  throw (.misspelled fault ⟨start, stop⟩ none)

/-- Fails with a fault in a part of the pattern that an earlier part makes one. -/
def failAgain {α : Type} (fault : PatternFault) (span earlier : Span) : Reading α :=
  throw (.misspelled fault span (some earlier))

def offset : Reading Nat := return (← get).offset

def rest : Reading (List Char) := return (← get).rest

/-- Fails with a fault at the next place. -/
def failHere {α : Type} (fault : PatternFault) : Reading α := do
  fail fault (← offset) (← offset)

/-- Fails with a fault in the next character. -/
def failNext {α : Type} (fault : PatternFault) : Reading α := do
  fail fault (← offset) ((← offset) + 1)

/-- The next character. -/
def next? : Reading (Option Char) := return (← rest).head?

/-- Whether nothing is left. -/
def isDone : Reading Bool := return (← rest).isEmpty

/-- Passes over some characters. -/
def drop (n : Nat) : Reading Unit := modify fun s => s.drop n

/-- Passes over what means nothing. -/
def skip : Reading Unit := modify Input.skip

/-- Passes over a character and what means nothing behind it. -/
def step : Reading Unit := do
  drop 1
  skip

/-- Reads characters while they satisfy a test, passing over what means nothing, up to a number of
them. -/
def many (test : Char → Bool) : Nat → List Char → Reading (List Char)
  | 0, found => return found
  | fuel + 1, found => do
    match ← next? with
    | some c =>
      if test c then
        step
        many test fuel (found ++ [c])
      else return found
    | none => return found

/-- Reads all characters in front that satisfy a test. -/
def all (test : Char → Bool) : Reading (List Char) := do
  many test (← rest).length []

end Reading

end BlockReuse.Text.Pattern
