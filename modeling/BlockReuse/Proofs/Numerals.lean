import Mathlib.Data.List.Forall2
import Mathlib.Data.Nat.Digits.Defs
import BlockReuse.Ir.Value
import BlockReuse.Source.Grammar

/-!
# Numerals — which number a text denotes

A list of digits writes the number that its digits have in a positional system, the first digit
being the most significant one (`Text.Writes`). An integer literal is such a list, in base ten or
behind a mark in base sixteen, with or without a sign (`Text.Literal`). Neither says how a text is
read, and both readers agree with them: `ofDigits?_eq_some` and `word?_eq_some`. The types whose
names hold a number are spelled by the same rule (`IrType.Spells`).
-/

set_option autoImplicit false

namespace BlockReuse

namespace Text

/-! ## Digits -/

/-- A list of digits writes a number, the most significant digit first. -/
def Writes (base : Nat) (digits : List Char) (n : Nat) : Prop :=
  ∃ values, values ≠ [] ∧
    List.Forall₂ (fun c d => digitValue? base c = some d) digits values ∧
      Nat.ofDigits base values.reverse = n

theorem digitsFrom?_eq_some {base high n : Nat} {digits : List Char} :
    digitsFrom? base high digits = some n ↔
      ∃ values, List.Forall₂ (fun c d => digitValue? base c = some d) digits values ∧
        high * base ^ values.length + Nat.ofDigits base values.reverse = n := by
  induction digits generalizing high with
  | nil => simp [digitsFrom?]
  | cons c cs ih =>
    have shift (d : Nat) (values : List Nat) :
        (high * base + d) * base ^ values.length + Nat.ofDigits base values.reverse =
          high * base ^ (d :: values).length + Nat.ofDigits base (d :: values).reverse := by
      rw [Nat.ofDigits_reverse_cons, List.length_cons]
      ring
    simp only [digitsFrom?, Option.bind_eq_some_iff, ih, List.forall₂_cons_left_iff]
    constructor
    · rintro ⟨d, digit, values, written, rfl⟩
      exact ⟨d :: values, ⟨d, values, digit, written, rfl⟩, (shift d values).symm⟩
    · rintro ⟨_, ⟨d, values, digit, written, rfl⟩, rfl⟩
      exact ⟨d, digit, values, written, shift d values⟩

/-- A number is read off exactly the digits that write it. -/
theorem ofDigits?_eq_some {base n : Nat} {digits : List Char} :
    ofDigits? base digits = some n ↔ Writes base digits n := by
  rw [ofDigits?, Writes]
  split
  · next none =>
    subst none
    simp only [List.forall₂_nil_left_iff, reduceCtorEq, false_iff]
    rintro ⟨values, nonempty, rfl, -⟩
    exact nonempty rfl
  · next some =>
    rw [digitsFrom?_eq_some]
    constructor
    · rintro ⟨values, written, rfl⟩
      refine ⟨values, ?_, written, by simp⟩
      rintro rfl
      exact some (List.forall₂_nil_right_iff.mp written)
    · rintro ⟨values, -, written, rfl⟩
      exact ⟨values, written, by simp⟩

theorem decimalBelow?_eq_some {bound n : Nat} {digits : List Char} :
    decimalBelow? bound digits = some n ↔ Writes 10 digits n ∧ n < bound := by
  simp [decimalBelow?, ofDigits?_eq_some, Option.filter_eq_some_iff]

theorem digitValue?_of_mem {base n : Nat} {digits : List Char} (written : Writes base digits n)
    {c : Char} (mem : c ∈ digits) : (digitValue? base c).isSome := by
  obtain ⟨values, -, digitwise, -⟩ := written
  induction digitwise with
  | nil => cases mem
  | cons digit rest ih =>
    rcases List.mem_cons.mp mem with rfl | mem
    · exact Option.isSome_of_eq_some digit
    · exact ih mem

/-! ## Integer literals -/

/-- A text is a literal without a sign: decimal digits, or hexadecimal ones behind `0x` or `0X`. -/
inductive Unsigned : List Char → Nat → Prop where
  | decimal {digits : List Char} {n : Nat} (written : Writes 10 digits n) : Unsigned digits n
  | hexadecimal {digits : List Char} {n : Nat} {mark : Char} (marked : mark = 'x' ∨ mark = 'X')
    (written : Writes 16 digits n) : Unsigned ('0' :: mark :: digits) n

/-- A text is an integer literal, with a minus sign or without a sign. -/
inductive Literal : List Char → Int → Prop where
  | positive {text : List Char} {n : Nat} (unsigned : Unsigned text n) : Literal text n
  | negative {text : List Char} {n : Nat} (unsigned : Unsigned text n) : Literal ('-' :: text) (-n)

theorem magnitude?_eq_some {text : List Char} {n : Nat} :
    magnitude? text = some n ↔ Unsigned text n := by
  -- A mark is no decimal digit, so a marked text is read in one way only.
  have unmarked {mark : Char} {digits : List Char} (marked : mark = 'x' ∨ mark = 'X') :
      ¬ Writes 10 ('0' :: mark :: digits) n := by
    intro written
    have digit := digitValue?_of_mem written (List.mem_cons_of_mem _ List.mem_cons_self)
    rcases marked with rfl | rfl <;> exact absurd digit (by decide)
  unfold magnitude?
  split
  · next digits =>
    rw [ofDigits?_eq_some]
    refine ⟨.hexadecimal (.inl rfl), ?_⟩
    rintro (written | ⟨-, written⟩)
    · exact absurd written (unmarked (.inl rfl))
    · exact written
  · next digits =>
    rw [ofDigits?_eq_some]
    refine ⟨.hexadecimal (.inr rfl), ?_⟩
    rintro (written | ⟨-, written⟩)
    · exact absurd written (unmarked (.inr rfl))
    · exact written
  · next lower upper =>
    rw [ofDigits?_eq_some]
    refine ⟨.decimal, ?_⟩
    rintro (written | ⟨rfl | rfl, -⟩)
    · exact written
    · exact absurd rfl (lower _)
    · exact absurd rfl (upper _)

theorem wideMagnitude?_eq_some {text : List Char} {n : Nat} :
    wideMagnitude? text = some n ↔ Unsigned text n ∧ n < wideBound := by
  simp [wideMagnitude?, magnitude?_eq_some, Option.filter_eq_some_iff]

/-- An integer is read off its literals, as far as it can be held. -/
theorem integer?_eq_some {text : List Char} {z : Int} :
    integer? text = some z ↔ Literal text z ∧ z.natAbs < wideBound := by
  unfold integer?
  split
  · next digits =>
    simp only [Option.map_eq_some_iff, wideMagnitude?_eq_some]
    constructor
    · rintro ⟨n, ⟨unsigned, held⟩, rfl⟩
      exact ⟨.negative unsigned, by simpa using held⟩
    · rintro ⟨⟨⟨written⟩⟩ | unsigned, held⟩
      · exact absurd (digitValue?_of_mem written List.mem_cons_self) (by decide)
      · exact ⟨_, ⟨unsigned, by simpa using held⟩, rfl⟩
  · next bare =>
    simp only [Option.map_eq_some_iff, wideMagnitude?_eq_some]
    constructor
    · rintro ⟨n, ⟨unsigned, held⟩, rfl⟩
      exact ⟨.positive unsigned, held⟩
    · rintro ⟨unsigned | unsigned, held⟩
      · exact ⟨_, ⟨unsigned, held⟩, rfl⟩
      · exact absurd rfl (bare _)

theorem fits_toInt (value : Int64) : Word.fits value.toInt = true :=
  Word.fits_iff.mpr ⟨Int64.le_toInt value, Int64.toInt_lt value⟩

/-- What fits a word can be held before it has its sign. -/
theorem natAbs_lt_wideBound {z : Int} (fits : Word.fits z = true) : z.natAbs < wideBound := by
  obtain ⟨low, high⟩ := Word.fits_iff.mp fits
  unfold Word.bound at low high
  unfold wideBound
  omega

/-- A word is read off exactly the literals of the integer it is. -/
theorem word?_eq_some {text : List Char} {value : Int64} :
    word? text = some value ↔ Literal text value.toInt := by
  simp only [word?, Option.map_eq_some_iff, Option.filter_eq_some_iff, integer?_eq_some]
  constructor
  · rintro ⟨z, ⟨⟨literal, -⟩, fits⟩, rfl⟩
    obtain ⟨low, high⟩ := Word.fits_iff.mp fits
    rwa [Int64.toInt_ofInt_of_le low high]
  · intro literal
    have fits := fits_toInt value
    exact ⟨value.toInt, ⟨⟨literal, natAbs_lt_wideBound fits⟩, fits⟩, Int64.ofInt_toInt value⟩

end Text

/-! ## Types -/

/-- A word is the name of a type. The name of an integer type is `i` and its number of bits, which
is not zero. -/
def IrType.Spells : IrType → String → Prop
  | ptr, word => word = "ptr"
  | f32, word => word = "f32"
  | f64, word => word = "f64"
  | int bits, word =>
    ∃ digits, word.toList = 'i' :: digits ∧ Text.Writes 10 digits bits.toNat ∧ 0 < bits.toNat

/-- A type is read off exactly the words that spell it. -/
theorem IrType.ofText?_eq_some {word : String} {type : IrType} :
    ofText? word = some type ↔ type.Spells word := by
  unfold ofText?
  split
  · next h => subst h; cases type <;> simp [Spells]
  split
  · next h => subst h; cases type <;> simp [Spells]
  split
  · next h => subst h; cases type <;> simp [Spells]
  next notPtr notF32 notF64 =>
  split
  · next digits h =>
    simp only [Option.map_eq_some_iff, Option.filter_eq_some_iff, Text.decimalBelow?_eq_some,
      decide_eq_true_eq]
    constructor
    · rintro ⟨bits, ⟨⟨written, below⟩, positive⟩, rfl⟩
      have bits_eq : (UInt16.ofNat bits).toNat = bits := UInt16.toNat_ofNat_of_lt below
      exact ⟨digits, h, bits_eq.symm ▸ written, bits_eq.symm ▸ positive⟩
    · intro spelled
      cases type with
      | int bits =>
        obtain ⟨digits', h', written, positive⟩ := spelled
        obtain rfl : digits = digits' := by simpa [h] using h'
        exact ⟨bits.toNat, ⟨⟨written, bits.toNat_lt⟩, positive⟩, by simp⟩
      | f32 => exact absurd spelled notF32
      | f64 => exact absurd spelled notF64
      | ptr => exact absurd spelled notPtr
  · next h =>
    simp only [reduceCtorEq, false_iff]
    intro spelled
    cases type with
    | int bits =>
      obtain ⟨digits, h', -⟩ := spelled
      exact h digits h'
    | f32 => exact notF32 spelled
    | f64 => exact notF64 spelled
    | ptr => exact notPtr spelled

end BlockReuse
