import BlockReuse.Word

/-!
# Numerals — the number a list of digits denotes

Digits are read from the most significant one, in base ten or sixteen. There is no limit on their
number; what range a number has to lie in is the reader's business.
-/

set_option autoImplicit false

namespace BlockReuse.Text

/-- The value of a hexadecimal digit of either case. -/
def hexValue? (c : Char) : Option Nat :=
  if '0' ≤ c ∧ c ≤ '9' then some (c.toNat - '0'.toNat)
  else if 'a' ≤ c ∧ c ≤ 'f' then some (c.toNat - 'a'.toNat + 10)
  else if 'A' ≤ c ∧ c ≤ 'F' then some (c.toNat - 'A'.toNat + 10)
  else none

/-- The value of a digit in a base up to sixteen. -/
def digitValue? (base : Nat) (c : Char) : Option Nat :=
  (hexValue? c).filter fun d => decide (d < base)

/-- Whether a character is a decimal digit. -/
def isDigit (c : Char) : Bool := (digitValue? 10 c).isSome

/-- Whether a character is a hexadecimal digit. -/
def isHexDigit (c : Char) : Bool := (digitValue? 16 c).isSome

/-- The number written by the digits, continuing from `high` in front of them. -/
def digitsFrom? (base : Nat) : Nat → List Char → Option Nat
  | high, [] => some high
  | high, c :: cs => (digitValue? base c).bind fun d => digitsFrom? base (high * base + d) cs

/-- The number written by a list of digits, of which there is at least one. -/
def ofDigits? (base : Nat) (digits : List Char) : Option Nat :=
  if digits = [] then none else digitsFrom? base 0 digits

/-- The unsigned decimal number below `bound` that a text writes. -/
def decimalBelow? (bound : Nat) (digits : List Char) : Option Nat :=
  (ofDigits? 10 digits).filter fun n => decide (n < bound)

/-- The number of a literal without a sign: decimal digits, or hexadecimal ones behind `0x` or
`0X`. -/
def magnitude? : List Char → Option Nat
  | '0' :: 'x' :: digits => ofDigits? 16 digits
  | '0' :: 'X' :: digits => ofDigits? 16 digits
  | digits => ofDigits? 10 digits

/-- The least magnitude that does not fit a signed integer of twice the width of a word. -/
def wideBound : Nat := 0x80000000000000000000000000000000

/-- The number of a literal without a sign, held in twice the width of a word until the sign is
known. -/
def wideMagnitude? (digits : List Char) : Option Nat :=
  (magnitude? digits).filter fun n => decide (n < wideBound)

/-- The integer a literal denotes, if it can be held. -/
def integer? : List Char → Option Int
  | '-' :: digits => (wideMagnitude? digits).map fun (n : Nat) => -(n : Int)
  | digits => (wideMagnitude? digits).map fun (n : Nat) => (n : Int)

/-- The signed word a literal denotes, if the integer it denotes is one. -/
def word? (literal : List Char) : Option Int64 :=
  ((integer? literal).filter Word.fits).map Int64.ofInt

end BlockReuse.Text
