import BlockReuse.Ir.Func
import BlockReuse.Word

/-!
# Origins — the base and the byte offset of a pointer

A pointer that a `gep` computes is its base shifted by index times element size, summed over the
indices. Following bases through a chain of geps gives the origin of a pointer: the first value of
the chain that is no gep, and the sum of the shifts. The sum is known only if every index is a
constant and every product and partial sum is a word.

Operands may form a cycle of geps, which has no origin. A chain that does not repeat a gep has no
more steps than the function has geps, so a longer one never ends; such a pointer is taken for its
own base, at an unknown offset.
-/

set_option autoImplicit false

namespace BlockReuse

/-- A base and a byte offset from it, if the offset is known. -/
structure Origin where
  base : Value
  offset : Option Int
  deriving DecidableEq, Repr

/-- The shift of a gep: the sum of its indices times the element size. -/
def gepShift? (element : IrType) (indices : List Value) : Option Int :=
  indices.foldlM
    (fun sum index =>
      match index with
      | .const c => (Word.mul? c.toInt element.byteSize).bind (Word.add? sum)
      | _ => none)
    0

def Instruction.isGep {ν : Type} : Instruction ν → Bool
  | gep _ _ _ => true
  | _ => false

namespace Func

/-- The base and the shift of the gep whose result a value is. -/
def gepStep? (f : Func) (pointer : Value) : Option (Value × Option Int) :=
  match pointer.inst?.bind f.instruction? with
  | some (.gep element base indices) => some (base, gepShift? element indices)
  | _ => none

/-- The number of geps. -/
def gepCount (f : Func) : Nat := f.instructions.countP Instruction.isGep

/-- Follows gep bases until one is no gep, for `limit` looks at most. -/
def follow (f : Func) : Nat → Origin → Option Origin
  | 0, _ => none
  | limit + 1, origin =>
    match f.gepStep? origin.base with
    | none => some origin
    | some (base, shift) =>
      f.follow limit ⟨base, origin.offset.bind fun a => shift.bind fun b => Word.add? a b⟩

/-- The origin of a pointer. -/
def origin (f : Func) (pointer : Value) : Origin :=
  (f.follow (f.gepCount + 1) ⟨pointer, some 0⟩).getD ⟨pointer, none⟩

/-- Whether a value names an object of its own: a global, or what an `alloca` reserves. -/
def isObject (f : Func) : Value → Bool
  | .global _ => true
  | .inst index =>
    match f.instruction? index with
    | some (.alloca _) => true
    | _ => false
  | .argument _ => false
  | .const _ => false

end Func

end BlockReuse
