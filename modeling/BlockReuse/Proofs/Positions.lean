import BlockReuse.Proofs.Lexing

/-!
# Positions — where tokens and lexical errors stand

A scanner counts lines and columns as it goes, and in a comment it stops counting columns.
`Position.behind` says what the position behind some characters is without counting step by step: as
many lines as there are newlines among them, and as many columns as there are characters since the
last newline.

A scanner that stands where it says it stands (`Scanner.Exact`) reads a token that does so and goes
on behind it (`Exact.next_token`): a token has no newline, and behind a comment nothing is read
before the next line starts. So all tokens of a source stand where they say (`Token.StandsIn`), and
a lexical error is reported where the characters at fault start (`LexError.At`).
-/

set_option autoImplicit false

namespace BlockReuse.Source

open Text (isBlank isDigit isHexDigit)

/-! ## The position behind some characters -/

namespace Position

/-- The position behind some characters of a source: the line counts the newlines among them, and
the column the characters since the last newline. -/
def behind (before : List Char) : Position :=
  ⟨before.count '\n', (before.reverse.takeWhile fun c => decide (c ≠ '\n')).length⟩

theorem behind_nil : behind [] = start := rfl

theorem behind_newline (before : List Char) :
    behind (before ++ ['\n']) = (behind before).nextLine := by
  simp [behind, nextLine]

/-- On a line, every character counts. -/
theorem behind_append {cs : List Char} (onLine : '\n' ∉ cs) (before : List Char) :
    behind (before ++ cs) = (behind before).right cs.length := by
  have inside : ∀ c ∈ cs.reverse, decide (c ≠ '\n') = true := by
    intro c mem
    refine decide_eq_true fun newline => onLine ?_
    exact newline ▸ List.mem_reverse.mp mem
  simp only [behind, right, List.count_append, List.count_eq_zero_of_not_mem onLine,
    List.reverse_append, List.takeWhile_append_of_pos inside, List.length_append,
    List.length_reverse,
    Nat.add_zero, Nat.add_comm]

end Position

/-! ## Blanks -/

/-- What is skipped ends at the position where the scanner then stands, if anything is left. Only
the line counts while a comment is skipped, for nothing is left in its line. -/
theorem exists_skipped (inComment : Bool) {position : Position} {before : List Char}
    (cs : List Char) (line : position.line = (Position.behind before).line)
    (exact_ : inComment = false → position = .behind before) :
    ∃ skipped, cs = skipped ++ (skipBlanks inComment position cs).rest ∧
      ((skipBlanks inComment position cs).rest ≠ [] →
        (skipBlanks inComment position cs).position = .behind (before ++ skipped)) := by
  induction cs generalizing inComment position before with
  | nil => exact ⟨[], rfl, fun left => absurd rfl left⟩
  | cons c cs ih =>
    -- Each round but the last goes on behind one more character.
    have goOn (inComment : Bool) {position : Position}
        (line : position.line = (Position.behind (before ++ [c])).line)
        (exact_ : inComment = false → position = .behind (before ++ [c])) :
        ∃ skipped, c :: cs = skipped ++ (skipBlanks inComment position cs).rest ∧
          ((skipBlanks inComment position cs).rest ≠ [] →
            (skipBlanks inComment position cs).position = .behind (before ++ skipped)) := by
      obtain ⟨skipped, whole, there⟩ := ih inComment line exact_
      refine ⟨c :: skipped, by rw [List.cons_append, ← whole], fun left => ?_⟩
      simpa using there left
    rw [skipBlanks]
    split
    next newline =>
      subst newline
      have next : position.nextLine = .behind (before ++ ['\n']) := by
        rw [Position.behind_newline, Position.nextLine, Position.nextLine, line]
      exact goOn false (congrArg Position.line next) fun _ => next
    next sameLine =>
    have onLine : '\n' ∉ [c] := by simpa using Ne.symm sameLine
    have stays : (Position.behind (before ++ [c])).line = position.line := by
      rw [Position.behind_append onLine, line]
      rfl
    split
    next => exact goOn true stays.symm (by simp)
    next notInComment =>
    have here := exact_ (by simpa using notInComment)
    split
    next =>
      have next : position.right 1 = .behind (before ++ [c]) := by
        rw [Position.behind_append onLine, here]
        rfl
      exact goOn false (congrArg Position.line next) fun _ => next
    split
    next => exact goOn true stays.symm (by simp)
    next => exact ⟨[], rfl, fun _ => by simpa using here⟩

/-! ## One token -/

theorem newline_notMem_takeWhile {p : Char → Bool} (other : p '\n' = false) (cs : List Char) :
    '\n' ∉ cs.takeWhile p := by
  intro mem
  rw [List.mem_takeWhile_imp mem] at other
  cases other

theorem newline_notMem_plainLexeme {head : Char} {tail : List Char} {l : Lexeme}
    (read : plainLexeme head tail = .ok l) : '\n' ∉ l.kind.sigil ++ l.text := by
  have sign : '\n' ∉ (splitSign (head :: tail)).1 := by
    unfold splitSign
    split <;> simp
  unfold plainLexeme at read
  simp only at read
  split at read
  · next mark cs marked =>
    have ofMark : '\n' ∉ mark := by
      unfold splitHexMark? at marked
      split at marked <;> cases marked <;> decide
    split at read <;> cases read
    have digits := newline_notMem_takeWhile (p := isHexDigit) (by decide) cs
    simp [TokenKind.sigil, sign, ofMark, digits]
  · split at read
    · cases read
      have digits :=
        newline_notMem_takeWhile (p := isDigit) (by decide) (splitSign (head :: tail)).2
      simp [TokenKind.sigil, sign, digits]
    · split at read <;> cases read
      exact newline_notMem_takeWhile (p := isNameChar) (by decide) (head :: tail)

/-- A token stands on one line. -/
theorem newline_notMem_lexeme {head : Char} {tail : List Char} {l : Lexeme}
    (read : lexeme head tail = .ok l) : '\n' ∉ l.kind.sigil ++ l.text := by
  unfold lexeme at read
  split at read
  · next kind punctuation =>
    cases read
    have other : '\n' ≠ head := by
      rintro rfl
      cases punctuation
    simp [sigil_of_punctuation? punctuation, other]
  · split at read
    · next kind isSigil =>
      have other : '\n' ≠ head := by
        rintro rfl
        cases isSigil
      simp only at read
      split at read <;> cases read
      have name := newline_notMem_takeWhile (p := isNameChar) (by decide) tail
      simp [sigil_of_nameKind? isSigil, other, name]
    · exact newline_notMem_plainLexeme read

/-- The characters that a lexical error speaks of start a text: a sigil that no name follows; a
hexadecimal mark, behind a minus sign or not, that no digit follows; a character that starts no
token. -/
def LexError.At : LexError → List Char → Prop
  | emptyName sigil, text =>
    (sigil = '%' ∨ sigil = '@') ∧
      ∃ more, text = sigil :: more ∧ ∀ c ∈ more.head?, isNameChar c = false
  | incompleteHex, text =>
    ∃ sign mark more, (sign = [] ∨ sign = ['-']) ∧ (mark = ['0', 'x'] ∨ mark = ['0', 'X']) ∧
      text = sign ++ mark ++ more ∧ ∀ c ∈ more.head?, isHexDigit c = false
  | invalidCharacter c, text =>
    isNameChar c = false ∧ punctuation? c = none ∧ nameKind? c = none ∧ ∃ more, text = c :: more

theorem head_of_takeWhile_eq_nil {p : Char → Bool} {cs : List Char} (none_ : cs.takeWhile p = []) :
    ∀ c ∈ cs.head?, p c = false := by
  cases cs with
  | nil => simp
  | cons d cs =>
    rintro c ⟨⟩
    by_contra inside
    simp [inside] at none_

theorem lexError_at {head : Char} {tail : List Char} {e : LexError}
    (failed : lexeme head tail = .error e) : e.At (head :: tail) := by
  unfold lexeme at failed
  split at failed
  · cases failed
  next unmarked =>
  split at failed
  next kind isSigil =>
    simp only at failed
    split at failed <;> cases failed
    next unnamed =>
    refine ⟨?_, tail, rfl, head_of_takeWhile_eq_nil unnamed⟩
    unfold nameKind? at isSigil
    repeat' split at isSigil
    all_goals simp_all
  next unsigiled =>
    unfold plainLexeme at failed
    have whole := splitSign_append (head :: tail)
    simp only at failed
    split at failed
    · next mark more marked =>
      split at failed <;> cases failed
      next undigited =>
      have isMark := splitHexMark?_append marked
      refine ⟨(splitSign (head :: tail)).1, mark, more, ?_, ?_, ?_,
        head_of_takeWhile_eq_nil undigited⟩
      · unfold splitSign
        split <;> simp
      · unfold splitHexMark? at marked
        split at marked <;> cases marked <;> simp
      · rw [List.append_assoc, isMark, whole]
    · split at failed
      · cases failed
      · split at failed <;> cases failed
        next unnamed =>
        have noName := head_of_takeWhile_eq_nil (not_not.mp unnamed) head rfl
        exact ⟨noName, unmarked, unsigiled, tail, rfl⟩

/-! ## Steps and runs -/

/-- A token stands in a source at its position. -/
def Token.StandsIn (source : List Char) (t : Token) : Prop :=
  ∃ before after, source = before ++ t.written ++ after ∧ t.position = .behind before

/-- A lexical error of a source is at its position. -/
def LexError.StandsIn (source : List Char) (e : Located LexError) : Prop :=
  ∃ before text, source = before ++ text ∧ e.position = .behind before ∧ e.value.At text

/-- A scanner has read all but the rest of a source and stands at its position. -/
def Scanner.Exact (source : List Char) (s : Scanner) : Prop :=
  ∃ before, source = before ++ s.rest ∧ s.position = .behind before

variable {source : List Char}

theorem exact_ofChars (source : List Char) : (Scanner.ofChars source).Exact source :=
  ⟨[], rfl, Position.behind_nil.symm⟩

/-- A step that reads something starts where the blanks end. -/
theorem Scanner.Exact.skipBlanks {s : Scanner} (stands : s.Exact source)
    (left : (skipBlanks false s.position s.rest).rest ≠ []) :
    (skipBlanks false s.position s.rest).Exact source := by
  obtain ⟨before, rfl, here⟩ := stands
  obtain ⟨skipped, whole, there⟩ := exists_skipped false s.rest (congrArg Position.line here)
    fun _ => here
  refine ⟨before ++ skipped, ?_, there left⟩
  rw [List.append_assoc, ← whole]

/-- A step skips some characters and takes a token, and both the token and the scanner stand where
they say. -/
theorem Scanner.exists_skipped_of_token {s after : Scanner} {t : Token} {before : List Char}
    (here : s.position = .behind before) (step : s.next = .token t after) :
    ∃ skipped, s.rest = skipped ++ (t.written ++ after.rest) ∧
      t.position = .behind (before ++ skipped) ∧
      after.position = .behind (before ++ skipped ++ t.written) := by
  obtain ⟨head, tail, l, blanks, read, kind, text, rfl, written⟩ := Scanner.of_next_eq_token step
  obtain ⟨skipped, whole, there⟩ := exists_skipped false s.rest (congrArg Position.line here)
    fun _ => here
  rw [blanks] at whole there
  have standing : t.position = .behind (before ++ skipped) := there (List.cons_ne_nil head tail)
  have onLine := newline_notMem_lexeme read
  rw [← kind, ← text, ← Token.written] at onLine
  refine ⟨skipped, ?_, standing, ?_⟩
  · rw [whole, ← written]
  · rw [Position.behind_append onLine, standing]

theorem Scanner.Exact.next_token {s after : Scanner} {t : Token} (stands : s.Exact source)
    (step : s.next = .token t after) : t.StandsIn source ∧ after.Exact source := by
  obtain ⟨before, rfl, here⟩ := stands
  obtain ⟨skipped, whole, there, behind⟩ := Scanner.exists_skipped_of_token here step
  rw [whole]
  exact ⟨⟨before ++ skipped, after.rest, by simp, there⟩,
    before ++ skipped ++ t.written, by simp, behind⟩

theorem Scanner.Exact.next_failed {s after : Scanner} {e : Located LexError}
    (stands : s.Exact source) (step : s.next = .failed e after) : LexError.StandsIn source e := by
  have skipped := stands.skipBlanks
  unfold Scanner.next at step
  simp only at step
  split at step
  · cases step
  next head tail rest =>
  split at step <;> cases step
  next failed =>
  obtain ⟨before, whole, here⟩ := skipped (by simp [rest])
  rw [rest] at whole
  exact ⟨before, head :: tail, whole, here, lexError_at failed⟩

/-- All tokens that are read stand where they say they stand. -/
theorem standsIn_of_tokens {s : Scanner} (stands : s.Exact source) {ts : List Token}
    (read : s.tokens = .ok ts) : ∀ t ∈ ts, t.StandsIn source :=
  forall_mem_tokens (Scanner.Exact source) (fun stands step => stands.next_token step) stands read

/-- A lexical error is reported where the characters at fault start. -/
theorem standsIn_of_failed {s : Scanner} (stands : s.Exact source) {e : Located LexError}
    (failed : s.tokens = .error e) : LexError.StandsIn source e := by
  induction s using Scanner.tokens.induct with
  | case1 s first after step ih =>
    rw [Scanner.tokens_eq, step] at failed
    refine ih (stands.next_token step).2 ?_
    cases more : after.tokens <;> simp_all [Except.map]
  | case2 s after step =>
    rw [Scanner.tokens_eq, step] at failed
    cases failed
  | case3 s e after step =>
    rw [Scanner.tokens_eq, step] at failed
    cases failed
    exact stands.next_failed step

end BlockReuse.Source
