import BlockReuse.Text.Lines

/-!
# Errors in patterns — what is wrong with a bad spelling, and where

An error shows the pattern with carets under the part at fault. A pattern of several lines is shown
between rules and with line numbers, and a part that runs over several lines is named by its ends.
-/

set_option autoImplicit false

namespace BlockReuse.Text

/-- What is wrong with a written pattern. -/
inductive PatternFault where
  | unclosedGroup
  | unopenedGroup
  | lookAround
  | emptyName
  | unclosedName
  | nameCharacter
  | repeatedName
  | unknownFlag
  | unfinishedFlags
  | repeatedFlag
  | repeatedNegation
  | danglingNegation
  | unclosedClass
  | rangeOrder
  | rangeEnd
  | classEscape
  | nothingToRepeat
  | unclosedCount
  | emptyCount
  | largeCount
  | countOrder
  | unfinishedEscape
  | unknownEscape
  | backReference
  | hexDigit
  | emptyHex
  | noCharacter
  | badProperty
  | unfinishedWordEdge
  | unclosedWordEdge
  | unknownWordEdge
  | tooDeep
  | unicodeCase
  | unicodeKind
  | unicodeForbidden
  | unknownProperty
  | unknownPropertyValue
  | notText
  deriving DecidableEq, Repr

/-- How deep a pattern may be nested. -/
def depthLimit : Nat := 250

def PatternFault.message : PatternFault → String
  | unclosedGroup => "unclosed group"
  | unopenedGroup => "unopened group"
  | lookAround => "look-around, including look-ahead and look-behind, is not supported"
  | emptyName => "empty capture group name"
  | unclosedName => "unclosed capture group name"
  | nameCharacter => "invalid capture group character"
  | repeatedName => "duplicate capture group name"
  | unknownFlag => "unrecognized flag"
  | unfinishedFlags => "expected flag but got end of regex"
  | repeatedFlag => "duplicate flag"
  | repeatedNegation => "flag negation operator repeated"
  | danglingNegation => "dangling flag negation operator"
  | unclosedClass => "unclosed character class"
  | rangeOrder => "invalid character class range, the start must be <= the end"
  | rangeEnd => "invalid range boundary, must be a literal"
  | classEscape => "invalid escape sequence found in character class"
  | nothingToRepeat => "repetition operator missing expression"
  | unclosedCount => "unclosed counted repetition"
  | emptyCount => "repetition quantifier expects a valid decimal"
  | largeCount => "decimal literal invalid"
  | countOrder => "invalid repetition count range, the start must be <= the end"
  | unfinishedEscape => "incomplete escape sequence, reached end of pattern prematurely"
  | unknownEscape => "unrecognized escape sequence"
  | backReference => "backreferences are not supported"
  | hexDigit => "invalid hexadecimal digit"
  | emptyHex => "hexadecimal literal empty"
  | noCharacter => "hexadecimal literal is not a Unicode scalar value"
  | badProperty => "invalid Unicode character class"
  | unfinishedWordEdge =>
    "found either the beginning of a special word boundary or a bounded repetition on a \\b " ++
      "with an opening brace, but no closing brace"
  | unclosedWordEdge =>
    "special word boundary assertion is either unclosed or contains an invalid character"
  | unknownWordEdge =>
    "unrecognized special word boundary assertion, valid choices are: start, end, start-half " ++
      "or end-half"
  | tooDeep =>
    "exceed the maximum number of nested parentheses/brackets (" ++ toString depthLimit ++ ")"
  | unicodeCase =>
    "Unicode-aware case insensitivity matching is not available (make sure the unicode-case " ++
      "feature is enabled)"
  | unicodeKind =>
    "Unicode-aware Perl class not found (make sure the unicode-perl feature is enabled)"
  | unicodeForbidden => "Unicode not allowed here"
  | unknownProperty => "Unicode property not found"
  | unknownPropertyValue => "Unicode property value not found"
  | notText => "pattern can match invalid UTF-8"

/-- A part of a pattern, by the numbers of characters in front of its start and its end. -/
structure Span where
  start : Nat
  stop : Nat
  deriving DecidableEq, Repr

/-- Why a pattern cannot be used. -/
inductive PatternError where
  /-- A fault, where it is, and what came earlier and makes it one. -/
  | misspelled (fault : PatternFault) (span : Span) (earlier : Option Span)
  /-- The pattern takes too much memory. -/
  | tooLarge
  /-- The pattern asks for the edges of words that are not ASCII words. -/
  | unicodeWords
  deriving DecidableEq, Repr

/-- The most bytes a pattern may take. -/
def sizeLimit : Nat := 10485760

/-! ## Carets -/

/-- The line and the column that a number of characters leads to, counted from one. -/
def lineAndColumn (written : List Char) (offset : Nat) : Nat × Nat :=
  let front := parts '\n' (written.take offset)
  (front.length, (front.getLastD []).length + 1)

/-- A span by lines and columns. -/
structure Region where
  startLine : Nat
  startColumn : Nat
  stopLine : Nat
  stopColumn : Nat
  deriving DecidableEq, Repr

def Region.ofSpan (written : List Char) (span : Span) : Region :=
  let (startLine, startColumn) := lineAndColumn written span.start
  let (stopLine, stopColumn) := lineAndColumn written span.stop
  ⟨startLine, startColumn, stopLine, stopColumn⟩

def blanks (n : Nat) : String := String.ofList (List.replicate n ' ')

/-- Carets under regions of one line, from the left, when so many columns are behind. -/
def carets (behind : Nat) : List Region → String
  | [] => ""
  | r :: rest =>
    let width := max 1 (r.stopColumn - r.startColumn)
    blanks (r.startColumn - 1 - behind) ++ String.ofList (List.replicate width '^') ++
      carets (max behind (r.startColumn - 1) + width) rest

/-- The lines of a pattern from the one with the given number on, each with its carets. The numbers
take so many columns, or are not shown if there are none. -/
def notedLines (width : Nat) (regions : List Region) : Nat → List (List Char) → List String
  | _, [] => []
  | number, line :: rest =>
    let shown := toString number
    let head := if width = 0 then blanks 4 else blanks (width - shown.length) ++ shown ++ ": "
    let indent := if width = 0 then 4 else width + 2
    let here := regions.filter fun r => r.startLine = number && r.stopLine = number
    let notes := if here = [] then [] else [blanks indent ++ carets 0 here]
    (head ++ String.ofList line) :: notes ++ notedLines width regions (number + 1) rest

/-- A region of several lines. -/
def Region.ends (r : Region) : String :=
  "on line " ++ toString r.startLine ++ " (column " ++ toString r.startColumn ++
    ") through line " ++ toString r.stopLine ++ " (column " ++ toString (r.stopColumn - 1) ++ ")"

/-- The lines that show where spans of a pattern are. -/
def notes (written : List Char) (spans : List Span) : List String :=
  let regions := spans.map (Region.ofSpan written)
  let count := (parts '\n' written).length
  if count ≤ 1 then notedLines 0 regions 1 (lines written)
  else
    let rule := String.ofList (List.replicate 79 '~')
    let width := (toString count).length
    let long := regions.filter fun r => r.startLine ≠ r.stopLine
    rule :: notedLines width regions 1 (lines written) ++ [rule] ++ long.map Region.ends

/-- Spans from the left. -/
def inOrder (span : Span) (earlier : Option Span) : List Span :=
  match earlier with
  | none => [span]
  | some e => if e.start ≤ span.start then [e, span] else [span, e]

/-- The error, under the pattern it is in. -/
def PatternError.message (written : String) : PatternError → String
  | misspelled fault span earlier =>
    "\n".intercalate
      (["regex parse error:"] ++ notes written.toList (inOrder span earlier) ++
        ["error: " ++ fault.message])
  | tooLarge => "Compiled regex exceeds size limit of " ++ toString sizeLimit ++ " bytes."
  | unicodeWords => "error building NFA"

end BlockReuse.Text
