/-!
# Values and types — what an operand names, and how wide a memory access is

An operand names the result of an instruction, an argument of the function, a global, or is an
integer constant. Equality of values is identity: two values are equal exactly when they name the
same thing, and equal constants are the same value. The pass compares operands by this equality
and by nothing else.
-/

set_option autoImplicit false

namespace BlockReuse

/-- What an operand refers to. Instructions, arguments and globals are named by their index in
the function that holds them; whether the index is in range is not part of the value. -/
inductive Value where
  | inst (index : Nat)
  | argument (index : Nat)
  | global (index : Nat)
  | const (value : Int64)
  deriving DecidableEq, Repr, Inhabited

namespace Value

/-- The instruction a value is the result of, if it is one. -/
def inst? : Value → Option Nat
  | inst index => some index
  | _ => none

/-- The place of a value's kind in the order of values. -/
def rank : Value → Nat
  | inst _ => 0
  | argument _ => 1
  | global _ => 2
  | const _ => 3

/-- Values are ordered by kind, then by index or number. -/
instance : Ord Value where
  compare
    | inst a, inst b => compare a b
    | argument a, argument b => compare a b
    | global a, global b => compare a b
    | const a, const b => compare a b
    | a, b => compare a.rank b.rank

end Value

/-- The types an instruction can carry: integers of a given number of bits, two floating-point
types, and pointers. -/
inductive IrType where
  | int (bits : UInt16)
  | f32
  | f64
  | ptr
  deriving DecidableEq, Repr, Inhabited

namespace IrType

/-- The bytes a value of the type takes in memory. An integer takes whole bytes, and at least
one. -/
def byteSize : IrType → Nat
  | int bits => if bits.toNat ≤ 8 then 1 else (bits.toNat + 7) / 8
  | f32 => 4
  | f64 => 8
  | ptr => 8

/-- How the type is written. -/
def text : IrType → String
  | int bits => "i" ++ toString bits.toNat
  | f32 => "f32"
  | f64 => "f64"
  | ptr => "ptr"

end IrType

end BlockReuse
