import Mathlib.Data.List.TakeWhile
import BlockReuse.Proofs.Phrases
import BlockReuse.Source.Scanner
import BlockReuse.Text.Listing

/-!
# Lexing — which tokens a text is read as

`Spans follow text L` says that a scanner which meets the text reads a phrase of the language `L`
and goes on behind the text, provided that what comes next satisfies `follow`. After a mark or a
blank anything may come next; a name or a number ends only where no character of a name follows it.
Texts in a row are read as the product of their languages (`Spans.append`), so that the text of a
function is taken apart the way it is put together.

The other direction is about the tokens of any source that can be read: the texts of names and words
among them are such that, written again, they are read as the same names and words (`Token.Lexical`,
`lexical_of_tokens`).
-/

set_option autoImplicit false

namespace BlockReuse

/-! ## Numbers as they are written -/

namespace Text

theorem digitValue?_digitChar {n : Nat} (digit : n < 10) : digitValue? 10 n.digitChar = some n := by
  have all : ∀ n < 10, digitValue? 10 n.digitChar = some n := by decide
  exact all n digit

theorem writes_snoc {base high low : Nat} {digits : List Char} {c : Char}
    (written : Writes base digits high) (digit : digitValue? base c = some low) :
    Writes base (digits ++ [c]) (base * high + low) := by
  obtain ⟨values, nonempty, digitwise, rfl⟩ := written
  refine ⟨values ++ [low], by simp, ?_, ?_⟩
  · exact List.rel_append digitwise (.cons digit .nil)
  · rw [List.reverse_append, List.reverse_singleton, List.singleton_append, Nat.ofDigits_cons,
      Nat.add_comm]

/-- The decimal digits of a number write it. -/
theorem writes_toDigits (n : Nat) : Writes 10 (Nat.toDigits 10 n) n := by
  induction n using Nat.strong_induction_on with
  | _ n ih =>
    rcases Nat.lt_or_ge n 10 with small | large
    · rw [Nat.toDigits_of_lt_base small]
      exact ⟨[n], by simp, .cons (digitValue?_digitChar small) .nil, by simp⟩
    · rw [Nat.toDigits_of_base_le (by decide) large]
      have high := ih (n / 10) (by omega)
      have whole := writes_snoc high (digitValue?_digitChar (Nat.mod_lt n (by decide)))
      rwa [Nat.div_add_mod] at whole

theorem Writes.nonempty {base n : Nat} {digits : List Char} (written : Writes base digits n) :
    digits ≠ [] := by
  rintro rfl
  obtain ⟨values, nonempty, digitwise, -⟩ := written
  exact nonempty (List.forall₂_nil_left_iff.mp digitwise)

/-- The text of an integer is decimal digits, behind a minus sign or not, and a literal of it. -/
theorem toString_int (z : Int) :
    ∃ sign digits n, (sign = [] ∨ sign = ['-']) ∧ (toString z).toList = sign ++ digits ∧
      Writes 10 digits n ∧ Literal (sign ++ digits) z := by
  cases z with
  | ofNat n =>
    have written := writes_toDigits n
    exact ⟨[], Nat.toDigits 10 n, n, .inl rfl, Nat.toList_repr, written,
      .positive (.decimal written)⟩
  | negSucc n =>
    have written := writes_toDigits (n + 1)
    refine ⟨['-'], Nat.toDigits 10 (n + 1), n + 1, .inr rfl, ?_, written,
      .negative (.decimal written)⟩
    rw [Int.toString_eq_repr, Int.repr_eq_if, if_neg (by omega)]
    simp

end Text

namespace Source

open Text (isBlank isDigit isHexDigit)

/-! ## Texts in a row -/

theorem Scanner.tokens_eq (s : Scanner) :
    s.tokens =
      match s.next with
      | .token t after => after.tokens.map (t :: ·)
      | .finished _ => .ok []
      | .failed e _ => .error e := by
  rw [Scanner.tokens]
  split <;> simp_all

/-- A text is read as a phrase of a language, where what comes next satisfies `follow`. -/
def Spans (follow : List Char → Prop) (text : String) (language : Language Token) : Prop :=
  ∀ rest position, follow rest → ∃ ts ∈ language, ∃ position',
    Scanner.tokens ⟨text.toList ++ rest, position⟩ =
      (Scanner.tokens ⟨rest, position'⟩).map (ts ++ ·)

/-- Anything may come next. -/
def Any (_ : List Char) : Prop := True

/-- No character of a name comes next. -/
def Ends (rest : List Char) : Prop := ∀ c ∈ rest.head?, isNameChar c = false

/-- A text starts with a character that is none of a name. -/
def Parts (text : String) : Prop := (text.toList.head?.any fun c => !isNameChar c) = true

instance (text : String) : Decidable (Parts text) := inferInstanceAs (Decidable (_ = true))

theorem Parts.append {text : String} (parts : Parts text) (text' : String) :
    Parts (text ++ text') := by
  unfold Parts at *
  rw [String.toList_append]
  cases chars : text.toList <;> simp_all

theorem Parts.ends {text : String} (parts : Parts text) (rest : List Char) :
    Ends (text.toList ++ rest) := by
  unfold Parts at parts
  cases chars : text.toList <;> simp_all [Ends]

namespace Spans

variable {follow follow' : List Char → Prop} {text text' : String} {L M : Language Token}

theorem append (first : Spans follow text L) (second : Spans follow' text' M)
    (meets : ∀ rest, follow' rest → follow (text'.toList ++ rest)) :
    Spans follow' (text ++ text') (L * M) := by
  intro rest position next
  obtain ⟨ts, isFirst, middle, readFirst⟩ := first (text'.toList ++ rest) position (meets rest next)
  obtain ⟨us, isSecond, final, readSecond⟩ := second rest middle next
  refine ⟨ts ++ us, Language.append_mem_mul isFirst isSecond, final, ?_⟩
  rw [String.toList_append, List.append_assoc, readFirst, readSecond]
  cases Scanner.tokens ⟨rest, final⟩ <;> simp [Except.map]

theorem andThen (first : Spans Any text L) (second : Spans follow text' M) :
    Spans follow (text ++ text') (L * M) :=
  first.append second fun _ _ => trivial

theorem before (first : Spans Ends text L) (second : Spans follow text' M) (parts : Parts text') :
    Spans follow (text ++ text') (L * M) :=
  first.append second fun rest _ => parts.ends rest

theorem weaken (spans : Spans Any text L) : Spans follow text L :=
  fun rest position _ => spans rest position trivial

theorem mono (spans : Spans follow text L) (le : L ≤ M) : Spans follow text M := by
  intro rest position next
  obtain ⟨ts, mem, read⟩ := spans rest position next
  exact ⟨ts, le mem, read⟩

/-- A text that is read to its end gives a phrase of its language. -/
theorem tokenize {source : String} (spans : Spans follow source L) (last : follow []) :
    ∃ ts ∈ L, tokenize source.toList = .ok ts := by
  obtain ⟨ts, mem, position, read⟩ := spans [] .start last
  have finished : Scanner.tokens ⟨[], position⟩ = .ok [] := by
    rw [Scanner.tokens_eq]
    rfl
  refine ⟨ts, mem, ?_⟩
  rw [List.append_nil, finished] at read
  simpa [Except.map, Source.tokenize, Scanner.ofChars] using read

end Spans

variable {follow : List Char → Prop} {text : String} {L : Language Token}

theorem spans_empty : Spans follow "" 1 :=
  fun rest position _ => ⟨[], Language.nil_mem_one, position, by
    cases tokens : Scanner.tokens ⟨rest, position⟩ <;> simp [Except.map, tokens]⟩

/-- Blanks give no tokens. -/
theorem spans_blanks (text : String) (blank : text.toList.all isBlank = true) :
    Spans Any text 1 := by
  have skips (blanks rest : List Char) (blank : ∀ c ∈ blanks, isBlank c = true)
      (position : Position) : ∃ position', skipBlanks false position (blanks ++ rest) =
        skipBlanks false position' rest := by
    induction blanks generalizing position with
    | nil => exact ⟨position, rfl⟩
    | cons c blanks ih =>
      have here := blank c List.mem_cons_self
      have more := ih fun d mem => blank d (List.mem_cons_of_mem c mem)
      rw [List.cons_append]
      by_cases newline : c = '\n'
      · obtain ⟨position', skipped⟩ := more position.nextLine
        exact ⟨position', by simp [skipBlanks, newline, skipped]⟩
      · obtain ⟨position', skipped⟩ := more (position.right 1)
        exact ⟨position', by simp [skipBlanks, newline, here, skipped]⟩
  intro rest position _
  obtain ⟨position', skipped⟩ := skips text.toList rest (List.all_eq_true.mp blank) position
  refine ⟨[], Language.nil_mem_one, position', ?_⟩
  have same : Scanner.next ⟨text.toList ++ rest, position⟩ = Scanner.next ⟨rest, position'⟩ := by
    simp only [Scanner.next, skipped]
  rw [Scanner.tokens_eq, same, ← Scanner.tokens_eq]
  cases tokens : Scanner.tokens ⟨rest, position'⟩ <;> simp [Except.map]

/-- A blank in front of a text does not change how it is read. -/
theorem Spans.behindBlank (spans : Spans follow text L) : Spans follow (" " ++ text) L := by
  have spaced := (spans_blanks " " (by decide)).andThen spans
  rwa [one_mul] at spaced

/-- A blank ends a text. -/
theorem Spans.blank (spans : Spans Ends text L) : Spans Any (text ++ " ") L := by
  have spaced := spans.before (spans_blanks " " (by decide)) (by decide)
  rwa [mul_one] at spaced

/-! ## One token -/

theorem nameChar_bounds {c : Char} (isName : isNameChar c = true) :
    0x24 ≤ c.toNat ∧ c.toNat ≤ 0x7a := by
  unfold isNameChar Char.isAlphanum Char.isAlpha Char.isUpper Char.isLower Char.isDigit at isName
  simp only [Bool.or_eq_true, Bool.and_eq_true, decide_eq_true_eq, beq_iff_eq, ge_iff_le,
    UInt32.le_iff_toNat_le] at isName
  rcases isName with ((((h | h) | h) | rfl) | rfl) | rfl
  · exact ⟨Nat.le_trans (by decide) h.1, Nat.le_trans h.2 (by decide)⟩
  · exact ⟨Nat.le_trans (by decide) h.1, Nat.le_trans h.2 (by decide)⟩
  · exact ⟨Nat.le_trans (by decide) h.1, Nat.le_trans h.2 (by decide)⟩
  all_goals decide

/-- The first character of a token is neither a blank nor the start of a comment. -/
def StartsToken (c : Char) : Prop := isBlank c = false ∧ c ≠ ';'

instance (c : Char) : Decidable (StartsToken c) := inferInstanceAs (Decidable (_ ∧ _))

theorem skipBlanks_of_startsToken {c : Char} (starts : StartsToken c) (position : Position)
    (cs : List Char) : skipBlanks false position (c :: cs) = ⟨c :: cs, position⟩ := by
  have newline : c ≠ '\n' := by
    rintro rfl
    exact absurd starts.1 (by decide)
  simp [skipBlanks, newline, starts.1, starts.2]

/-- A text that is read as one token, whatever comes next that `follow` admits. -/
theorem spans_of_lexeme {c : Char} {cs chars : List Char} {kind : TokenKind}
    (whole : text.toList = c :: cs) (starts : StartsToken c)
    (reads : ∀ rest, follow rest → lexeme c (cs ++ rest) = .ok ⟨kind, chars, rest⟩) :
    Spans follow text (Phrase.spelled kind (String.ofList chars)) := by
  intro rest position next
  refine ⟨_, ⟨⟨kind, String.ofList chars, position⟩, ⟨rfl, rfl⟩, rfl⟩,
    position.right (kind.sigil.length + chars.length), ?_⟩
  rw [whole, List.cons_append, Scanner.tokens_eq]
  simp [Scanner.next, skipBlanks_of_startsToken starts, reads rest next]

/-- A mark starts a token, which is neither a name nor a word nor a number. -/
theorem startsToken_of_punctuation? {c : Char} {kind : TokenKind}
    (punctuation : punctuation? c = some kind) :
    StartsToken c ∧ kind ≠ .localName ∧ kind ≠ .globalName ∧ kind ≠ .identifier ∧
      kind ≠ .number := by
  unfold punctuation? at punctuation
  repeat' split at punctuation
  all_goals cases punctuation
  all_goals subst c; decide

theorem spans_mark {c : Char} {kind : TokenKind} (punctuation : punctuation? c = some kind) :
    Spans Any (String.singleton c) (Phrase.mark kind) := by
  have starts := (startsToken_of_punctuation? punctuation).1
  have reads (rest : List Char) (_ : Any rest) : lexeme c ([] ++ rest) = .ok ⟨kind, [c], rest⟩ := by
    simp [lexeme, punctuation]
  have spans := spans_of_lexeme (String.toList_singleton c) starts reads
  exact spans.mono (Phrase.single_mono fun t spelled => spelled.1)

/-! ## Names -/

/-- A name: characters of names, and at least one. -/
structure IsName (name : String) : Prop where
  nonempty : name.toList ≠ []
  chars : ∀ c ∈ name.toList, isNameChar c = true

/-- A word: a name that does not start with a digit. -/
structure IsWord (word : String) : Prop extends IsName word where
  undigited : ∀ c ∈ word.toList.head?, isDigit c = false

/-- A run of characters with a property ends where a character without it follows. -/
theorem takeWhile_run {p : Char → Bool} {run rest : List Char} (inside : ∀ c ∈ run, p c = true)
    (stops : ∀ c ∈ rest.head?, p c = false) :
    (run ++ rest).takeWhile p = run ∧ (run ++ rest).dropWhile p = rest := by
  have here : rest.takeWhile p = [] ∧ rest.dropWhile p = rest := by
    cases rest with
    | nil => simp
    | cons c rest => simp [stops c rfl]
  rw [List.takeWhile_append_of_pos inside, List.dropWhile_append_of_pos inside, here.1, here.2]
  simp

theorem spans_sigil {sigil : Char} {kind : TokenKind} (starts : StartsToken sigil)
    (plain : punctuation? sigil = none) (isSigil : nameKind? sigil = some kind) {name : String}
    (isName : IsName name) :
    Spans Ends (String.singleton sigil ++ name) (Phrase.spelled kind name) := by
  have whole : (String.singleton sigil ++ name).toList = sigil :: name.toList := by simp
  have reads (rest : List Char) (ends : Ends rest) :
      lexeme sigil (name.toList ++ rest) = .ok ⟨kind, name.toList, rest⟩ := by
    obtain ⟨taken, dropped⟩ := takeWhile_run isName.chars ends
    simp [lexeme, plain, isSigil, taken, dropped, isName.nonempty]
  have spans := spans_of_lexeme whole starts reads
  rwa [String.ofList_toList] at spans

theorem spans_localName {name : String} (isName : IsName name) :
    Spans Ends ("%" ++ name) (Phrase.spelled .localName name) :=
  spans_sigil (show StartsToken '%' by decide) rfl rfl isName

theorem spans_globalName {name : String} (isName : IsName name) :
    Spans Ends ("@" ++ name) (Phrase.spelled .globalName name) :=
  spans_sigil (show StartsToken '@' by decide) rfl rfl isName

/-! ## Words and numbers -/

/-- What starts with a character of a name, or with a sign, is a word or a number. -/
theorem plain_of_isNameChar {c : Char} (isName : isNameChar c = true ∨ c = '-') :
    StartsToken c ∧ ∀ cs, lexeme c cs = plainLexeme c cs := by
  rcases isName with isName | rfl
  · have other {d : Char} (noName : isNameChar d = false) : c ≠ d := by
      rintro rfl
      exact absurd isName (by simp [noName])
    have blank : isBlank c = false := by
      have bounds := nameChar_bounds isName
      simp only [isBlank, Text.blankRanges, List.any_cons, List.any_nil, Bool.or_eq_false_iff,
        decide_eq_false_iff_not, and_true]
      omega
    have unmarked : punctuation? c = none := by
      unfold punctuation?
      repeat' rw [if_neg (other (by decide))]
    have unsigiled : nameKind? c = none := by
      rw [nameKind?, if_neg (other (by decide)), if_neg (other (by decide))]
    exact ⟨⟨blank, other (by decide)⟩, fun cs => by simp only [lexeme, unmarked, unsigiled]⟩
  · exact ⟨by decide, fun cs => rfl⟩

theorem isNameChar_of_isHexDigit {c : Char} (digit : isHexDigit c = true) :
    isNameChar c = true := by
  have letter (isLetter : c.isAlpha = true) : isNameChar c = true := by
    simp [isNameChar, Char.isAlphanum, isLetter]
  unfold isHexDigit Text.digitValue? Text.hexValue? at digit
  split at digit
  · next inRange =>
    have isDigit : c.isDigit = true := by
      simp only [Char.isDigit, Bool.and_eq_true, decide_eq_true_eq]
      exact inRange
    simp [isNameChar, Char.isAlphanum, isDigit]
  split at digit
  · next inRange =>
    have isLower : c.isLower = true := by
      unfold Char.isLower
      simp only [Bool.and_eq_true, decide_eq_true_eq]
      exact ⟨inRange.1, UInt32.le_trans inRange.2 (show 'f'.val ≤ 'z'.val by decide)⟩
    exact letter (Bool.or_eq_true_iff.mpr (.inr isLower))
  split at digit
  · next inRange =>
    have isUpper : c.isUpper = true := by
      unfold Char.isUpper
      simp only [decide_eq_true_eq]
      exact ⟨inRange.1, UInt32.le_trans inRange.2 (show 'F'.val ≤ 'Z'.val by decide)⟩
    exact letter (Bool.or_eq_true_iff.mpr (.inl isUpper))
  · cases digit

theorem isNameChar_of_isDigit {c : Char} (digit : isDigit c = true) : isNameChar c = true := by
  refine isNameChar_of_isHexDigit ?_
  unfold isDigit Text.digitValue? at digit
  unfold isHexDigit Text.digitValue?
  cases value : Text.hexValue? c with
  | none => simp [value] at digit
  | some n =>
    have small : n < 10 := by simpa [value, Option.filter] using digit
    have : n < 16 := by omega
    simp [Option.filter, this]

theorem isNameChar_of_writes {digits : List Char} {n : Nat} (written : Text.Writes 10 digits n)
    {c : Char} (mem : c ∈ digits) : isNameChar c = true :=
  isNameChar_of_isDigit (Text.digitValue?_of_mem written mem)

theorem splitHexMark?_eq_none {cs : List Char}
    (unmarked : ∀ mark ds, cs = '0' :: mark :: ds → mark ≠ 'x' ∧ mark ≠ 'X') :
    splitHexMark? cs = none := by
  unfold splitHexMark?
  split
  · next ds => exact absurd rfl (unmarked _ ds rfl).1
  · next ds => exact absurd rfl (unmarked _ ds rfl).2
  · rfl

theorem splitSign_of_ne {c : Char} (unsigned : c ≠ '-') (cs : List Char) :
    splitSign (c :: cs) = ([], c :: cs) := by
  unfold splitSign
  split
  · next same => exact absurd (List.cons.inj same).1 unsigned
  · rfl

/-- Characters of names of which the first is no digit are a word. -/
theorem plainLexeme_word {c : Char} {cs rest : List Char}
    (chars : ∀ d ∈ c :: cs, isNameChar d = true) (notDigit : isDigit c = false) (ends : Ends rest) :
    plainLexeme c (cs ++ rest) = .ok ⟨.identifier, c :: cs, rest⟩ := by
  obtain ⟨taken, dropped⟩ := takeWhile_run chars ends
  rw [List.cons_append] at taken dropped
  have unsigned : c ≠ '-' := by
    rintro rfl
    exact absurd (chars '-' List.mem_cons_self) (by decide)
  have unmarked : splitHexMark? (c :: (cs ++ rest)) = none := by
    refine splitHexMark?_eq_none fun mark ds same => ?_
    obtain ⟨rfl, -⟩ := List.cons.inj same
    exact absurd notDigit (by decide)
  simp [plainLexeme, splitSign_of_ne unsigned, unmarked, notDigit, taken, dropped]

theorem spans_word {word : String} (isWord : IsWord word) : Spans Ends word (Phrase.word word) := by
  obtain ⟨c, cs, whole⟩ := List.exists_cons_of_ne_nil isWord.nonempty
  have chars := isWord.chars
  rw [whole] at chars
  obtain ⟨starts, plain⟩ := plain_of_isNameChar (.inl (chars c List.mem_cons_self))
  have notDigit : isDigit c = false := isWord.undigited c (by rw [whole]; rfl)
  have spans := spans_of_lexeme whole starts fun rest ends => by
    rw [plain]
    exact plainLexeme_word chars notDigit ends
  rwa [← whole, String.ofList_toList] at spans

theorem plainLexeme_number {c : Char} {cs sign digits rest : List Char} (nonempty : digits ≠ [])
    (allDigits : ∀ d ∈ digits, isDigit d = true) (ends : Ends rest)
    (split : splitSign (c :: cs) = (sign, digits ++ rest)) :
    plainLexeme c cs = .ok ⟨.number, sign ++ digits, rest⟩ := by
  have stops : ∀ d ∈ rest.head?, isDigit d = false := by
    intro d mem
    by_contra digit
    have isName := isNameChar_of_isDigit (Bool.eq_true_of_not_eq_false digit)
    simp [ends d mem] at isName
  have unmarked : splitHexMark? (digits ++ rest) = none := by
    refine splitHexMark?_eq_none fun mark more same => ?_
    -- The character behind the first digit is another digit, or none of a name.
    have marked : isDigit mark = true ∨ isNameChar mark = false := by
      obtain ⟨d, ds, rfl⟩ := List.exists_cons_of_ne_nil nonempty
      obtain ⟨-, same⟩ := List.cons.inj same
      cases ds with
      | nil => exact .inr (ends mark (by simp_all))
      | cons e es =>
        obtain ⟨rfl, -⟩ := List.cons.inj same
        exact .inl (allDigits e (by simp))
    constructor
    all_goals
      rintro rfl
      exact absurd marked (by decide)
  obtain ⟨taken, dropped⟩ := takeWhile_run allDigits stops
  simp [plainLexeme, split, unmarked, taken, dropped, nonempty]

/-- Decimal digits, with a minus sign or without a sign, are a number. -/
theorem spans_number {sign digits : List Char} {n : Nat} (signed : sign = [] ∨ sign = ['-'])
    (whole : text.toList = sign ++ digits) (written : Text.Writes 10 digits n) :
    Spans Ends text (Phrase.spelled .number text) := by
  have allDigits : ∀ d ∈ digits, isDigit d = true :=
    fun d mem => Text.digitValue?_of_mem written mem
  have nonempty := written.nonempty
  obtain ⟨d, ds, rfl⟩ := List.exists_cons_of_ne_nil nonempty
  have digit : isNameChar d = true := isNameChar_of_writes written List.mem_cons_self
  rcases signed with rfl | rfl
  · obtain ⟨starts, plain⟩ := plain_of_isNameChar (.inl digit)
    have unsigned : d ≠ '-' := by
      rintro rfl
      exact absurd digit (by decide)
    have spans := spans_of_lexeme whole starts fun rest ends => by
      rw [plain]
      exact plainLexeme_number nonempty allDigits ends (splitSign_of_ne unsigned _)
    rwa [← whole, String.ofList_toList] at spans
  · obtain ⟨starts, plain⟩ := plain_of_isNameChar (.inr rfl)
    have spans := spans_of_lexeme whole starts fun rest ends => by
      rw [plain]
      exact plainLexeme_number nonempty allDigits ends rfl
    rwa [← whole, String.ofList_toList] at spans

/-! ## Lists -/

theorem spans_comma : Spans Any ", " (Phrase.mark .comma) := by
  have spans := (spans_mark (c := ',') rfl).andThen (spans_blanks " " (by decide))
  rwa [mul_one] at spans

/-- Items with commas between them are read as a list. -/
theorem spans_commaSeparated {α : Type} {items : List α} {write : α → String}
    {language : α → Language Token} (each : ∀ a ∈ items, Spans Ends (write a) (language a)) :
    Spans Ends (Text.commaSeparated (items.map write)) (Phrase.listed (items.map language)) := by
  induction items with
  | nil => exact spans_empty
  | cons a items ih =>
    have first := each a List.mem_cons_self
    have more := ih fun b mem => each b (List.mem_cons_of_mem a mem)
    cases items with
    | nil => simpa [Text.commaSeparated, Phrase.listed, Phrase.behindCommas] using first
    | cons b items =>
      have both := (first.before spans_comma (by decide)).andThen more
      simpa [Text.commaSeparated, String.intercalate_cons_cons, Phrase.listed,
        Phrase.behindCommas_cons, mul_assoc] using both

/-- Texts in a row after each of which anything may come. -/
theorem spans_join {α : Type} {items : List α} {write : α → String}
    {language : α → Language Token} (each : ∀ a ∈ items, Spans Any (write a) (language a)) :
    Spans Any (String.join (items.map write)) ((items.map language).prod) := by
  induction items with
  | nil => exact spans_empty
  | cons a items ih =>
    rw [List.map_cons, List.map_cons, String.join_cons, List.prod_cons]
    exact (each a List.mem_cons_self).andThen (ih fun b mem => each b (List.mem_cons_of_mem a mem))

/-! ## The tokens of a source -/

/-- The text of a token, if it is that of a name or a word, is one. -/
structure Token.Lexical (t : Token) : Prop where
  isName : t.kind = .localName ∨ t.kind = .globalName → IsName t.text
  isWord : t.kind = .identifier → IsWord t.text

theorem isName_takeWhile {cs : List Char} (nonempty : cs.takeWhile isNameChar ≠ []) :
    IsName (String.ofList (cs.takeWhile isNameChar)) := by
  refine ⟨by rwa [String.toList_ofList], fun c mem => ?_⟩
  rw [String.toList_ofList] at mem
  exact List.mem_takeWhile_imp mem

/-- What neither punctuation nor a sigil starts is a number or a word. -/
theorem lexical_of_plainLexeme {c : Char} {cs : List Char} {l : Lexeme}
    (read : plainLexeme c cs = .ok l) (position : Position) :
    Token.Lexical ⟨l.kind, String.ofList l.text, position⟩ := by
  unfold plainLexeme at read
  simp only at read
  split at read
  · split at read <;> cases read
    exact ⟨by simp, by simp⟩
  · split at read
    · cases read
      exact ⟨by simp, by simp⟩
    · next undigited =>
      split at read
      · next nonempty =>
        cases read
        refine ⟨by simp, fun _ => ⟨isName_takeWhile nonempty, fun d first => ?_⟩⟩
        rw [String.toList_ofList] at first
        have starts : isNameChar c = true := by
          by_contra other
          simp [other] at nonempty
        have unsigned : c ≠ '-' := by
          rintro rfl
          exact absurd starts (by decide)
        obtain rfl : c = d := by simpa [List.takeWhile_cons, starts] using first
        by_contra digit
        simp [splitSign_of_ne unsigned, List.takeWhile_cons, digit] at undigited
      · cases read

theorem lexical_of_lexeme {c : Char} {cs : List Char} {l : Lexeme} (read : lexeme c cs = .ok l)
    (position : Position) : Token.Lexical ⟨l.kind, String.ofList l.text, position⟩ := by
  unfold lexeme at read
  split at read
  · next kind punctuation =>
    cases read
    obtain ⟨-, notLocal, notGlobal, notWord, -⟩ := startsToken_of_punctuation? punctuation
    exact ⟨fun class_ => absurd class_ (not_or_intro notLocal notGlobal),
      fun class_ => absurd class_ notWord⟩
  · split at read
    · next kind isSigil =>
      simp only at read
      split at read <;> cases read
      next nonempty =>
        have class_ : kind ≠ .identifier := by
          rintro rfl
          have := sigil_of_nameKind? isSigil
          simp [TokenKind.sigil] at this
        exact ⟨fun _ => isName_takeWhile nonempty, fun same => absurd same class_⟩
    · exact lexical_of_plainLexeme read position

/-- What a step that yields a token does: it skips blanks and takes the token that the rest starts
with. -/
theorem Scanner.of_next_eq_token {s after : Scanner} {t : Token} (step : s.next = .token t after) :
    ∃ head tail l, skipBlanks false s.position s.rest = ⟨head :: tail, t.position⟩ ∧
      lexeme head tail = .ok l ∧ t.kind = l.kind ∧ t.text.toList = l.text ∧
      after = ⟨l.rest, t.position.right t.written.length⟩ ∧
      head :: tail = t.written ++ after.rest := by
  unfold Scanner.next at step
  simp only at step
  split at step
  · cases step
  next head tail rest =>
  split at step <;> cases step
  next l read =>
  refine ⟨head, tail, l, ?_, read, rfl, String.toList_ofList, ?_, ?_⟩
  · rw [← rest]
  · simp [Token.written]
  · simpa [Token.written] using (lexeme_written read).1.symm

theorem lexical_of_next {s after : Scanner} {t : Token} (step : s.next = .token t after) :
    t.Lexical := by
  obtain ⟨head, tail, l, -, read, kind, text, -⟩ := Scanner.of_next_eq_token step
  have lexical := lexical_of_lexeme read t.position
  rwa [← kind, ← text, String.ofList_toList] at lexical

/-- The tokens that are read from a scanner whose next token is known. -/
theorem Scanner.tokens_of_token {s after : Scanner} {first : Token} {ts : List Token}
    (step : s.next = .token first after) (read : s.tokens = .ok ts) :
    ∃ us, after.tokens = .ok us ∧ ts = first :: us := by
  rw [Scanner.tokens_eq, step] at read
  cases more : after.tokens with
  | error e => simp [more, Except.map] at read
  | ok us => exact ⟨us, rfl, by simpa [more, Except.map, eq_comm] using read⟩

/-- What every step from a scanner of some kind to another of that kind says of its token holds of
all tokens that are read. -/
theorem forall_mem_tokens (kept : Scanner → Prop) {holds : Token → Prop}
    (step : ∀ {s t after}, kept s → Scanner.next s = .token t after → holds t ∧ kept after)
    {s : Scanner} (start : kept s) {ts : List Token} (read : s.tokens = .ok ts) :
    ∀ t ∈ ts, holds t := by
  induction s using Scanner.tokens.induct generalizing ts with
  | case1 s first after next ih =>
    obtain ⟨us, more, rfl⟩ := Scanner.tokens_of_token next read
    obtain ⟨here, there⟩ := step start next
    exact List.forall_mem_cons.mpr ⟨here, ih there more⟩
  | case2 s after next =>
    rw [Scanner.tokens_eq, next] at read
    cases read
    exact fun t mem => absurd mem List.not_mem_nil
  | case3 s e after next =>
    rw [Scanner.tokens_eq, next] at read
    cases read

/-- Names and words are such in every source that can be read. -/
theorem lexical_of_tokens {s : Scanner} {ts : List Token} (read : s.tokens = .ok ts) :
    ∀ t ∈ ts, t.Lexical :=
  forall_mem_tokens (fun _ => True) (fun _ step => ⟨lexical_of_next step, trivial⟩) trivial read

end Source

end BlockReuse
