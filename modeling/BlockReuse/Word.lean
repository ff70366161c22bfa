/-!
# Words — the signed integers of 64 bits

Literals and byte offsets are computed as integers and kept only where they lie in the range of a
word. An operation whose result does not is answered by `none`.
-/

set_option autoImplicit false

namespace BlockReuse.Word

/-- Half the number of words: the least integer above every word. -/
def bound : Int := 0x8000000000000000

/-- Whether an integer is in the range of a word. -/
def fits (n : Int) : Bool := decide (-bound ≤ n ∧ n < bound)

/-- The integer, if it is in the range of a word. -/
def checked (n : Int) : Option Int := if fits n then some n else none

/-- The sum of two integers, if it is in the range of a word. -/
def add? (a b : Int) : Option Int := checked (a + b)

/-- The product of two integers, if it is in the range of a word. -/
def mul? (a b : Int) : Option Int := checked (a * b)

theorem fits_iff {n : Int} : fits n = true ↔ -bound ≤ n ∧ n < bound := by
  simp [fits]

theorem checked_eq_some {n m : Int} : checked n = some m ↔ fits n = true ∧ n = m := by
  simp [checked]

end BlockReuse.Word
