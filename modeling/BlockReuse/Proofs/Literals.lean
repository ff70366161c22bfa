import BlockReuse.Ir.Text
import BlockReuse.Proofs.Lexing

/-!
# Literals — a number is read exactly, however long it is written

What an integer literal is worth is said here without a reader: a digit is worth its place among the
digits, digits are worth what they are worth in a positional system, and a sign turns the number
around (`Text.literalValue`). The texts that have such a worth are the numerals (`Text.IsNumeral`).

Number tokens have numerals as their texts, every numeral is the text of one
(`Source.isNumeral_of_tokens`, `Source.tokenize_numeral`), and a word is read off a numeral exactly
if the numeral is worth that word (`Text.word?_eq_some_iff`). The width in which a magnitude is held
does not show: what is refused for it is no word. The decimal text of a word is a numeral that is
worth the word, so a constant is read back.
-/

set_option autoImplicit false

namespace BlockReuse

namespace Text

/-! ## Digits by their places -/

/-- The digits with small letters, in order. -/
def smallDigits : List Char :=
  ['0', '1', '2', '3', '4', '5', '6', '7', '8', '9', 'a', 'b', 'c', 'd', 'e', 'f']

/-- The digits with capital letters, in order. -/
def capitalDigits : List Char :=
  ['0', '1', '2', '3', '4', '5', '6', '7', '8', '9', 'A', 'B', 'C', 'D', 'E', 'F']

/-- The place of a character among the digits of either case, which is sixteen if it is none. -/
def digitPlace (c : Char) : Nat := min (smallDigits.idxOf c) (capitalDigits.idxOf c)

/-- A digit is worth its place. -/
theorem hexValue?_eq_digitPlace (c : Char) :
    hexValue? c = if digitPlace c < 16 then some (digitPlace c) else none := by
  -- The digits are among the first characters, where there are few to look at.
  have first : ∀ n < 128, hexValue? (Char.ofNat n) =
      if digitPlace (Char.ofNat n) < 16 then some (digitPlace (Char.ofNat n)) else none := by
    decide +kernel
  by_cases early : c.toNat < 128
  · rw [← Char.ofNat_toNat c]
    exact first c.toNat early
  · have notIn {digits : List Char} (among : digits.all (fun d => decide (d.toNat < 128)) = true) :
        c ∉ digits := by
      intro mem
      exact early (of_decide_eq_true (List.all_eq_true.mp among c mem))
    have place : digitPlace c = 16 := by
      rw [digitPlace, List.idxOf_eq_length (notIn rfl), List.idxOf_eq_length (notIn rfl)]
      rfl
    have above {d : Char} (small : d.toNat < 128) : ¬ c ≤ d := by
      rw [Char.le_def, UInt32.le_iff_toNat_le]
      exact fun le => early (Nat.lt_of_le_of_lt le small)
    rw [hexValue?, if_neg fun h => above (by decide) h.2, if_neg fun h => above (by decide) h.2,
      if_neg fun h => above (by decide) h.2, place]
    rfl

theorem digitValue?_eq_some {base d : Nat} (small : base ≤ 16) {c : Char} :
    digitValue? base c = some d ↔ digitPlace c < base ∧ digitPlace c = d := by
  rw [digitValue?, hexValue?_eq_digitPlace]
  split
  · simp only [Option.filter_eq_some_iff, Option.some.injEq, decide_eq_true_eq]
    constructor
    · rintro ⟨rfl, below⟩
      exact ⟨below, rfl⟩
    · rintro ⟨below, rfl⟩
      exact ⟨rfl, below⟩
  · simp only [Option.filter_none, reduceCtorEq, false_iff]
    omega

/-! ## Numerals and what they are worth -/

/-- Digits of a base, and at least one. -/
structure AreDigits (base : Nat) (digits : List Char) : Prop where
  nonempty : digits ≠ []
  places : ∀ c ∈ digits, digitPlace c < base

/-- What digits are worth, the first being the most significant. -/
def digitsValue (base : Nat) (digits : List Char) : Nat :=
  Nat.ofDigits base (digits.map digitPlace).reverse

theorem writes_iff {base n : Nat} (small : base ≤ 16) {digits : List Char} :
    Writes base digits n ↔ AreDigits base digits ∧ digitsValue base digits = n := by
  have digitwise (values : List Nat) :
      List.Forall₂ (fun c d => digitValue? base c = some d) digits values ↔
        (∀ c ∈ digits, digitPlace c < base) ∧ digits.map digitPlace = values := by
    simp only [digitValue?_eq_some small]
    induction digits generalizing values with
    | nil => simp [eq_comm]
    | cons c digits ih =>
      rw [List.forall₂_cons_left_iff]
      simp only [ih]
      constructor
      · rintro ⟨_, _, ⟨below, rfl⟩, ⟨places, rfl⟩, rfl⟩
        exact ⟨List.forall_mem_cons.mpr ⟨below, places⟩, rfl⟩
      · rintro ⟨places, rfl⟩
        obtain ⟨below, places⟩ := List.forall_mem_cons.mp places
        exact ⟨_, _, ⟨below, rfl⟩, ⟨places, rfl⟩, rfl⟩
  constructor
  · rintro ⟨values, nonempty, written, rfl⟩
    obtain ⟨places, rfl⟩ := (digitwise values).mp written
    exact ⟨⟨fun none => nonempty (by rw [none]; rfl), places⟩, rfl⟩
  · rintro ⟨digits, rfl⟩
    refine ⟨_, ?_, (digitwise _).mpr ⟨digits.places, rfl⟩, rfl⟩
    simpa using digits.nonempty

/-- A numeral without a sign: decimal digits, or hexadecimal ones behind `0x` or `0X`. -/
inductive IsBareNumeral : List Char → Prop
  | decimal {digits : List Char} (decimals : AreDigits 10 digits) : IsBareNumeral digits
  | hexadecimal {mark : Char} {digits : List Char} (marked : mark = 'x' ∨ mark = 'X')
      (hexadecimals : AreDigits 16 digits) : IsBareNumeral ('0' :: mark :: digits)

/-- A numeral, with a minus sign or without a sign. -/
inductive IsNumeral : List Char → Prop
  | positive {text : List Char} (bare : IsBareNumeral text) : IsNumeral text
  | negative {text : List Char} (bare : IsBareNumeral text) : IsNumeral ('-' :: text)

theorem IsNumeral.exists_sign {text : List Char} (numeral : IsNumeral text) :
    ∃ sign bare, (sign = [] ∨ sign = ['-']) ∧ text = sign ++ bare ∧ IsBareNumeral bare := by
  cases numeral with
  | positive isBare => exact ⟨[], _, .inl rfl, rfl, isBare⟩
  | negative isBare => exact ⟨['-'], _, .inr rfl, rfl, isBare⟩

/-- What a numeral without a sign is worth. -/
def bareValue : List Char → Nat
  | '0' :: 'x' :: digits => digitsValue 16 digits
  | '0' :: 'X' :: digits => digitsValue 16 digits
  | digits => digitsValue 10 digits

/-- What a numeral is worth. -/
def literalValue : List Char → Int
  | '-' :: text => -(bareValue text : Int)
  | text => bareValue text

theorem bareValue_decimal {digits : List Char} (decimal : AreDigits 10 digits) :
    bareValue digits = digitsValue 10 digits := by
  unfold bareValue
  split
  · exact absurd (decimal.places 'x' (by simp)) (by decide)
  · exact absurd (decimal.places 'X' (by simp)) (by decide)
  · rfl

theorem literalValue_bare {text : List Char} (bare : IsBareNumeral text) :
    literalValue text = bareValue text := by
  unfold literalValue
  split
  · cases bare with
    | decimal digits => exact absurd (digits.places '-' List.mem_cons_self) (by decide)
  · rfl

theorem unsigned_iff {text : List Char} {n : Nat} :
    Unsigned text n ↔ IsBareNumeral text ∧ bareValue text = n := by
  constructor
  · rintro (written | ⟨marked, written⟩)
    · obtain ⟨digits, rfl⟩ := (writes_iff (by decide)).mp written
      exact ⟨.decimal digits, bareValue_decimal digits⟩
    · obtain ⟨digits, rfl⟩ := (writes_iff (by decide)).mp written
      refine ⟨.hexadecimal marked digits, ?_⟩
      rcases marked with rfl | rfl <;> rfl
  · rintro ⟨digits | ⟨marked, digits⟩, rfl⟩
    · exact .decimal ((writes_iff (by decide)).mpr ⟨digits, (bareValue_decimal digits).symm⟩)
    · refine .hexadecimal marked ((writes_iff (by decide)).mpr ⟨digits, ?_⟩)
      rcases marked with rfl | rfl <;> rfl

/-- The literals of an integer are the numerals that are worth it. -/
theorem literal_iff {text : List Char} {z : Int} :
    Literal text z ↔ IsNumeral text ∧ literalValue text = z := by
  constructor
  · rintro (unsigned | unsigned)
    · obtain ⟨bare, rfl⟩ := unsigned_iff.mp unsigned
      exact ⟨.positive bare, literalValue_bare bare⟩
    · obtain ⟨bare, rfl⟩ := unsigned_iff.mp unsigned
      exact ⟨.negative bare, rfl⟩
  · rintro ⟨bare | bare, rfl⟩
    · rw [literalValue_bare bare]
      exact .positive (unsigned_iff.mpr ⟨bare, rfl⟩)
    · exact .negative (unsigned_iff.mpr ⟨bare, rfl⟩)

/-- A word is read off a numeral exactly if it is what the numeral is worth. -/
theorem word?_eq_some_iff {text : List Char} (numeral : IsNumeral text) {value : Int64} :
    word? text = some value ↔ value.toInt = literalValue text := by
  rw [word?_eq_some, literal_iff, eq_comm (a := value.toInt)]
  exact and_iff_right numeral

/-- A word is read off the numerals that are worth no more and no less than a word can be. -/
theorem exists_word?_iff {text : List Char} (numeral : IsNumeral text) :
    (∃ value, word? text = some value) ↔
      -2 ^ 63 ≤ literalValue text ∧ literalValue text ≤ 2 ^ 63 - 1 := by
  simp only [word?_eq_some_iff numeral]
  constructor
  · rintro ⟨value, worth⟩
    rw [← worth]
    exact ⟨Int64.le_toInt value, Int.le_sub_one_of_lt (Int64.toInt_lt value)⟩
  · rintro ⟨low, high⟩
    exact ⟨.ofInt (literalValue text), Int64.toInt_ofInt_of_le low (Int.lt_of_le_sub_one high)⟩

end Text

namespace Source

open Text (IsBareNumeral IsNumeral AreDigits digitPlace literalValue isDigit isHexDigit)

/-! ## Number tokens -/

theorem areDigits_takeWhile {base : Nat} (small : base ≤ 16) {cs : List Char}
    (nonempty : cs.takeWhile (fun c => (Text.digitValue? base c).isSome) ≠ []) :
    AreDigits base (cs.takeWhile fun c => (Text.digitValue? base c).isSome) := by
  refine ⟨nonempty, ?_⟩
  intro c mem
  have digit := List.mem_takeWhile_imp mem
  obtain ⟨d, value⟩ := Option.isSome_iff_exists.mp digit
  exact ((Text.digitValue?_eq_some small).mp value).1

theorem isNumeral_splitSign {cs text : List Char} (bare : IsBareNumeral text) :
    IsNumeral ((splitSign cs).1 ++ text) := by
  unfold splitSign
  split
  · exact .negative bare
  · exact .positive bare

/-- The text of a number is a numeral. -/
theorem isNumeral_of_plainLexeme {c : Char} {cs : List Char} {l : Lexeme}
    (read : plainLexeme c cs = .ok l) (number : l.kind = .number) : IsNumeral l.text := by
  unfold plainLexeme at read
  simp only at read
  split at read
  next mark ds marked =>
    split at read <;> cases read
    next digited =>
    have digits : AreDigits 16 (ds.takeWhile isHexDigit) := areDigits_takeWhile (by decide) digited
    rw [List.append_assoc]
    refine isNumeral_splitSign ?_
    unfold splitHexMark? at marked
    split at marked <;> cases marked
    · exact .hexadecimal (.inl rfl) digits
    · exact .hexadecimal (.inr rfl) digits
  next =>
    split at read
    next digited =>
      cases read
      exact isNumeral_splitSign (.decimal (areDigits_takeWhile (by decide) digited))
    next =>
      split at read <;> cases read
      cases number

theorem isNumeral_of_lexeme {c : Char} {cs : List Char} {l : Lexeme} (read : lexeme c cs = .ok l)
    (number : l.kind = .number) : IsNumeral l.text := by
  unfold lexeme at read
  split at read
  next kind punctuation =>
    cases read
    exact absurd number (startsToken_of_punctuation? punctuation).2.2.2.2
  next =>
    split at read
    next kind sigil =>
      have named := sigil_of_nameKind? sigil
      simp only at read
      split at read <;> cases read
      cases number
      cases named
    next => exact isNumeral_of_plainLexeme read number

/-- The texts of the numbers among the tokens of a source are numerals. -/
theorem isNumeral_of_tokens {s : Scanner} {ts : List Token} (read : s.tokens = .ok ts) :
    ∀ t ∈ ts, t.kind = .number → IsNumeral t.text.toList := by
  refine forall_mem_tokens (fun _ => True) ?_ trivial read
  intro s t after _ step
  obtain ⟨head, tail, l, -, read, kind, text, -⟩ := Scanner.of_next_eq_token step
  refine ⟨?_, trivial⟩
  intro number
  rw [text]
  exact isNumeral_of_lexeme read (kind ▸ number)

/-! ## Numerals as tokens -/

theorem isHexDigit_of_areDigits {digits : List Char} (hexadecimals : AreDigits 16 digits) :
    ∀ c ∈ digits, isHexDigit c = true := fun c mem =>
  Option.isSome_of_eq_some
    ((Text.digitValue?_eq_some (by decide)).mpr ⟨hexadecimals.places c mem, rfl⟩)

/-- Hexadecimal digits behind a mark are a number. -/
theorem plainLexeme_hexadecimal {c mark : Char} {cs sign digits rest : List Char}
    (marked : mark = 'x' ∨ mark = 'X') (hexadecimals : AreDigits 16 digits) (ends : Ends rest)
    (split : splitSign (c :: cs) = (sign, '0' :: mark :: (digits ++ rest))) :
    plainLexeme c cs = .ok ⟨.number, sign ++ '0' :: mark :: digits, rest⟩ := by
  have stops : ∀ d ∈ rest.head?, isHexDigit d = false := by
    intro d mem
    by_contra digit
    have isName := isNameChar_of_isHexDigit (Bool.eq_true_of_not_eq_false digit)
    simp [ends d mem] at isName
  obtain ⟨taken, dropped⟩ := takeWhile_run (isHexDigit_of_areDigits hexadecimals) stops
  have splitMark : splitHexMark? ('0' :: mark :: (digits ++ rest)) =
      some (['0', mark], digits ++ rest) := by
    rcases marked with rfl | rfl <;> rfl
  simp [plainLexeme, split, splitMark, taken, dropped, hexadecimals.nonempty]

/-- A numeral is read as one number. -/
theorem spans_numeral {text : String} (numeral : IsNumeral text.toList) :
    Spans Ends text (Phrase.spelled .number text) := by
  obtain ⟨sign, bare, signed, whole, isBare⟩ := numeral.exists_sign
  cases isBare with
  | decimal decimals =>
    exact spans_number signed whole ((Text.writes_iff (by decide)).mpr ⟨decimals, rfl⟩)
  | @hexadecimal mark digits marked hexadecimals =>
    rcases signed with rfl | rfl
    · obtain ⟨starts, plain⟩ := plain_of_isNameChar (.inl (show isNameChar '0' = true by decide))
      have spans := spans_of_lexeme whole starts fun rest ends => by
        rw [plain]
        exact plainLexeme_hexadecimal marked hexadecimals ends (splitSign_of_ne (by decide) _)
      rwa [← whole, String.ofList_toList] at spans
    · obtain ⟨starts, plain⟩ := plain_of_isNameChar (.inr (rfl : '-' = '-'))
      have spans := spans_of_lexeme whole starts fun rest ends => by
        rw [plain]
        exact plainLexeme_hexadecimal marked hexadecimals ends rfl
      rwa [← whole, String.ofList_toList] at spans

/-- A numeral that is a source of its own is one number token. -/
theorem tokenize_numeral {text : String} (numeral : IsNumeral text.toList) :
    ∃ t : Token, tokenize text.toList = .ok [t] ∧ t.kind = .number ∧ t.text = text := by
  obtain ⟨_, ⟨t, ⟨kind, spelled⟩, rfl⟩, read⟩ :=
    (spans_numeral numeral).tokenize (show Ends [] by simp [Ends])
  exact ⟨t, read, kind, spelled⟩

/-! ## Numbers as operands -/

section

variable {t : Token} (number : t.kind = .number) (rest : List Token)

include number

theorem operand_number_of_word? {value : Int64} (word : Text.word? t.text.toList = some value) :
    operand (t :: rest) = .ok (.constant value, rest) := by
  simp [operand, Operand.ofToken, number, word]

theorem operand_number_of_no_word (none : Text.word? t.text.toList = none) :
    operand (t :: rest) = .error ⟨.numberOutOfRange t.text, some t, t :: rest⟩ := by
  simp [operand, Operand.ofToken, number, none]

theorem operand_number_iff (value : Int64) :
    operand (t :: rest) = .ok (.constant value, rest) ↔ Text.word? t.text.toList = some value := by
  constructor
  · intro read
    cases word : Text.word? t.text.toList with
    | none =>
      rw [operand_number_of_no_word number rest word] at read
      cases read
    | some other =>
      rw [operand_number_of_word? number rest word] at read
      cases read
      rfl
  · exact operand_number_of_word? number rest

end

/-- A number that stands among the tokens of some source. -/
def Token.IsReadNumber (t : Token) : Prop :=
  t.kind = .number ∧ ∃ source ts, tokenize source = .ok ts ∧ t ∈ ts

/-- **Numbers are exact.** A number that was read as a token is read as the constant that its text
is worth, if that is a word, and is refused as out of range if it is none. The texts of such tokens
are the numerals, of any length. A constant is written as one number token, which is read as the
constant. -/
theorem numbers_exact :
    (∀ t : Token, t.IsReadNumber → ∀ rest,
      (∀ value : Int64, operand (t :: rest) = .ok (.constant value, rest) ↔
        value.toInt = literalValue t.text.toList) ∧
      ((∃ value, operand (t :: rest) = .ok (.constant value, rest)) ↔
        -2 ^ 63 ≤ literalValue t.text.toList ∧ literalValue t.text.toList ≤ 2 ^ 63 - 1) ∧
      (¬ (-2 ^ 63 ≤ literalValue t.text.toList ∧ literalValue t.text.toList ≤ 2 ^ 63 - 1) →
        operand (t :: rest) = .error ⟨.numberOutOfRange t.text, some t, t :: rest⟩)) ∧
    (∀ text : String, IsNumeral text.toList ↔ ∃ t : Token, t.IsReadNumber ∧ t.text = text) ∧
    (∀ (f : Func) (value : Int64), ∃ t : Token,
      tokenize (f.showValue (.const value)).toList = .ok [t] ∧ t.kind = .number ∧
        ∀ rest, operand (t :: rest) = .ok (.constant value, rest)) := by
  refine ⟨?_, ?_, ?_⟩
  · rintro t ⟨number, source, ts, read, mem⟩ rest
    have numeral : IsNumeral t.text.toList := isNumeral_of_tokens read t mem number
    have reads := operand_number_iff number rest
    refine ⟨?_, ?_, ?_⟩
    · intro value
      exact (reads value).trans (Text.word?_eq_some_iff numeral)
    · simp only [reads]
      exact Text.exists_word?_iff numeral
    · intro outside
      apply operand_number_of_no_word number rest
      rw [← Text.exists_word?_iff numeral, ← Option.isSome_iff_exists] at outside
      exact Option.not_isSome_iff_eq_none.mp outside
  · intro text
    constructor
    · intro numeral
      obtain ⟨t, read, number, spelled⟩ := tokenize_numeral numeral
      exact ⟨t, ⟨number, _, _, read, List.mem_singleton_self t⟩, spelled⟩
    · rintro ⟨t, ⟨number, source, ts, read, mem⟩, rfl⟩
      exact isNumeral_of_tokens read t mem number
  · intro f value
    obtain ⟨sign, digits, n, -, shown, -, literal⟩ := Text.toString_int value.toInt
    rw [← shown] at literal
    obtain ⟨t, read, number, spelled⟩ := tokenize_numeral (Text.literal_iff.mp literal).1
    refine ⟨t, read, number, ?_⟩
    intro rest
    apply operand_number_of_word? number rest
    rw [spelled]
    exact Text.word?_eq_some.mpr literal

/-- The least word with zeros in front of it, the greatest word and one, and a number of more than
twice the width of a word. -/
def extremeNumbers : List Token :=
  [⟨.number, "-0X008000000000000000", ⟨0, 0⟩⟩, ⟨.number, "9223372036854775808", ⟨0, 22⟩⟩,
    ⟨.number, "0xffffffffffffffffffffffffffffffffff", ⟨0, 42⟩⟩]

theorem isReadNumber_extremeNumbers : ∀ t ∈ extremeNumbers, t.IsReadNumber := by
  have read : tokenize ("-0X008000000000000000 9223372036854775808 ".toList ++
      "0xffffffffffffffffffffffffffffffffff".toList) = .ok extremeNumbers := by decide +kernel
  have number : ∀ t ∈ extremeNumbers, t.kind = .number := by decide
  exact fun t mem => ⟨number t mem, _, _, read, mem⟩

theorem numbers_exact_extremes :
    (∀ t ∈ extremeNumbers, t.IsReadNumber) ∧
    (∀ t ∈ extremeNumbers[0]?, operand [t] = .ok (.constant Int64.minValue, [])) ∧
    (∀ t ∈ extremeNumbers[1]?, operand [t] = .error ⟨.numberOutOfRange t.text, some t, [t]⟩) ∧
    (∀ t ∈ extremeNumbers[2]?, operand [t] = .error ⟨.numberOutOfRange t.text, some t, [t]⟩) := by
  have read := isReadNumber_extremeNumbers
  refine ⟨read, ?_, ?_, ?_⟩
  · rintro t ⟨⟩
    exact ((numbers_exact.1 _ (read _ (by decide)) []).1 Int64.minValue).mpr (by decide +kernel)
  · rintro t ⟨⟩
    exact (numbers_exact.1 _ (read _ (by decide)) []).2.2 (by decide +kernel)
  · rintro t ⟨⟩
    exact (numbers_exact.1 _ (read _ (by decide)) []).2.2 (by decide +kernel)

end Source

end BlockReuse
