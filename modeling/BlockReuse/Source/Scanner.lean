import BlockReuse.Source.Error
import BlockReuse.Text.Blank
import BlockReuse.Text.Numeral

/-!
# Scanner — reading a source token by token

A scanner is what is left of a source and the position of its first character. One step skips
blanks and comments and reads the longest token that starts there. A step that fails leaves the
scanner at the character it failed on, behind the blanks it has skipped.

`lexeme` splits a source that starts with a token into the token's characters and the rest:
nothing is lost (`lexeme_written`) and a token has at least one character, so each step that
yields a token leaves less of the source (`next_shrinks`), and reading all tokens ends.
-/

set_option autoImplicit false

namespace BlockReuse.Source

open Text (isBlank isDigit isHexDigit)

/-- Whether a character can stand in a name. -/
def isNameChar (c : Char) : Bool := c.isAlphanum || c == '_' || c == '.' || c == '$'

/-- What is left of a source, and where it starts. -/
structure Scanner where
  rest : List Char
  position : Position
  deriving DecidableEq, Repr

/-- A scanner at the start of a source. -/
def Scanner.ofChars (source : List Char) : Scanner := ⟨source, .start⟩

/-! ## Blanks and comments -/

/-- Skips blanks, and comments from a semicolon to the end of the line. A comment does not move
the column: nothing follows it on its line. -/
def skipBlanks (inComment : Bool) (position : Position) : List Char → Scanner
  | [] => ⟨[], position⟩
  | c :: cs =>
    if c = '\n' then skipBlanks false position.nextLine cs
    else if inComment then skipBlanks true position cs
    else if isBlank c then skipBlanks false (position.right 1) cs
    else if c = ';' then skipBlanks true position cs
    else ⟨c :: cs, position⟩

theorem skipBlanks_suffix (inComment : Bool) (position : Position) (cs : List Char) :
    (skipBlanks inComment position cs).rest <:+ cs := by
  induction cs generalizing inComment position with
  | nil => exact List.suffix_refl _
  | cons c cs ih =>
    simp only [skipBlanks]
    split
    · exact (ih _ _).trans (List.suffix_cons c cs)
    split
    · exact (ih _ _).trans (List.suffix_cons c cs)
    split
    · exact (ih _ _).trans (List.suffix_cons c cs)
    split
    · exact (ih _ _).trans (List.suffix_cons c cs)
    · exact List.suffix_refl _

/-! ## One token -/

/-- A token's class and text, and what follows it. -/
structure Lexeme where
  kind : TokenKind
  text : List Char
  rest : List Char
  deriving DecidableEq, Repr

/-- The tokens of a single character. -/
def punctuation? (c : Char) : Option TokenKind :=
  if c = '[' then some .openBracket
  else if c = ']' then some .closeBracket
  else if c = '(' then some .openParen
  else if c = ')' then some .closeParen
  else if c = '\x7b' then some .openBrace
  else if c = '\x7d' then some .closeBrace
  else if c = ',' then some .comma
  else if c = ':' then some .colon
  else if c = '=' then some .equals
  else none

/-- The class of the names a sigil introduces. -/
def nameKind? (c : Char) : Option TokenKind :=
  if c = '%' then some .localName else if c = '@' then some .globalName else none

/-- Splits a sign off a source. -/
def splitSign : List Char → List Char × List Char
  | '-' :: cs => (['-'], cs)
  | cs => ([], cs)

/-- Splits `0x` or `0X` off a source that starts with it. -/
def splitHexMark? : List Char → Option (List Char × List Char)
  | '0' :: 'x' :: cs => some (['0', 'x'], cs)
  | '0' :: 'X' :: cs => some (['0', 'X'], cs)
  | _ => none

/-- Reads a number or an identifier, the tokens that neither punctuation nor a sigil starts. -/
def plainLexeme (head : Char) (tail : List Char) : Except LexError Lexeme :=
  let source := head :: tail
  let (sign, body) := splitSign source
  match splitHexMark? body with
  | some (mark, cs) =>
    let digits := cs.takeWhile isHexDigit
    if digits = [] then .error .incompleteHex
    else .ok ⟨.number, sign ++ mark ++ digits, cs.dropWhile isHexDigit⟩
  | none =>
    let digits := body.takeWhile isDigit
    if digits ≠ [] then .ok ⟨.number, sign ++ digits, body.dropWhile isDigit⟩
    else
      let name := source.takeWhile isNameChar
      if name ≠ [] then .ok ⟨.identifier, name, source.dropWhile isNameChar⟩
      else .error (.invalidCharacter head)

/-- Reads the token a source starts with. -/
def lexeme (head : Char) (tail : List Char) : Except LexError Lexeme :=
  match punctuation? head with
  | some kind => .ok ⟨kind, [head], tail⟩
  | none =>
    match nameKind? head with
    | some kind =>
      let name := tail.takeWhile isNameChar
      if name = [] then .error (.emptyName head)
      else .ok ⟨kind, name, tail.dropWhile isNameChar⟩
    | none => plainLexeme head tail

theorem splitSign_append (cs : List Char) : (splitSign cs).1 ++ (splitSign cs).2 = cs := by
  unfold splitSign
  split <;> rfl

theorem splitHexMark?_append {cs mark rest : List Char}
    (h : splitHexMark? cs = some (mark, rest)) : mark ++ rest = cs := by
  unfold splitHexMark? at h
  split at h <;> cases h <;> rfl

theorem sigil_of_punctuation? {c : Char} {kind : TokenKind} (h : punctuation? c = some kind) :
    kind.sigil = [] := by
  unfold punctuation? at h
  repeat' split at h
  all_goals cases h <;> rfl

theorem sigil_of_nameKind? {c : Char} {kind : TokenKind} (h : nameKind? c = some kind) :
    kind.sigil = [c] := by
  unfold nameKind? at h
  repeat' split at h
  all_goals cases h <;> simp_all [TokenKind.sigil]

theorem plainLexeme_written {head : Char} {tail : List Char} {l : Lexeme}
    (h : plainLexeme head tail = .ok l) :
    l.kind.sigil ++ l.text ++ l.rest = head :: tail ∧ l.text ≠ [] := by
  have sign := splitSign_append (head :: tail)
  unfold plainLexeme at h
  simp only at h
  split at h
  next mark cs hm =>
    have hex := splitHexMark?_append hm
    split at h
    · cases h
    · next hd =>
      cases h
      simp only [TokenKind.sigil, List.nil_append, List.append_assoc,
        List.takeWhile_append_dropWhile, hex, sign, true_and]
      simp [hd]
  next =>
    split at h
    · next hd =>
      cases h
      simp only [TokenKind.sigil, List.nil_append, List.append_assoc,
        List.takeWhile_append_dropWhile, sign, true_and]
      simp [hd]
    · split at h
      · next hn =>
        cases h
        exact ⟨by simp [TokenKind.sigil], hn⟩
      · cases h

/-- A token and what follows it are the source, and a token is not empty. -/
theorem lexeme_written {head : Char} {tail : List Char} {l : Lexeme}
    (h : lexeme head tail = .ok l) :
    l.kind.sigil ++ l.text ++ l.rest = head :: tail ∧ l.text ≠ [] := by
  unfold lexeme at h
  split at h
  next kind hp =>
    cases h
    simp [sigil_of_punctuation? hp]
  next =>
    split at h
    next kind hk =>
      simp only at h
      split at h
      · cases h
      · next hn =>
        cases h
        exact ⟨by simp [sigil_of_nameKind? hk], hn⟩
    next => exact plainLexeme_written h

/-! ## Steps -/

/-- The outcome of one step, with the scanner after it. -/
inductive Step where
  | token (token : Token) (after : Scanner)
  | finished (after : Scanner)
  | failed (error : Located LexError) (after : Scanner)
  deriving DecidableEq, Repr

/-- Reads the next token. -/
def Scanner.next (s : Scanner) : Step :=
  let s := skipBlanks false s.position s.rest
  match s.rest with
  | [] => .finished s
  | head :: tail =>
    match lexeme head tail with
    | .error e => .failed ⟨e, s.position⟩ s
    | .ok l =>
      .token ⟨l.kind, String.ofList l.text, s.position⟩
        ⟨l.rest, s.position.right (l.kind.sigil.length + l.text.length)⟩

/-- A step that yields a token leaves less of the source. -/
theorem Scanner.next_shrinks {s after : Scanner} {t : Token} (h : s.next = .token t after) :
    after.rest.length < s.rest.length := by
  have suffix := (skipBlanks_suffix false s.position s.rest).length_le
  unfold Scanner.next at h
  simp only at h
  split at h
  · cases h
  · next head tail hr =>
    split at h
    · cases h
    · next l hl =>
      cases h
      obtain ⟨whole, nonempty⟩ := lexeme_written hl
      have length := congrArg List.length whole
      simp only [List.length_append] at length
      have := List.length_pos_iff.mpr nonempty
      rw [hr] at suffix
      show l.rest.length < s.rest.length
      omega

/-- Every token from here to the end of the source, or the first error. -/
def Scanner.tokens (s : Scanner) : Except (Located LexError) (List Token) :=
  match _step : s.next with
  | .token t after => after.tokens.map (t :: ·)
  | .finished _ => .ok []
  | .failed e _ => .error e
termination_by s.rest.length
decreasing_by exact Scanner.next_shrinks _step

/-- The tokens of a source. -/
def tokenize (source : List Char) : Except (Located LexError) (List Token) :=
  (Scanner.ofChars source).tokens

end BlockReuse.Source
