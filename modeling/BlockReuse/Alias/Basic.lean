import BlockReuse.Alias.Oracle
import BlockReuse.Alias.Origin

/-!
# The basic oracle — comparing the origins of two pointers

Two locations at different bases are known to be apart if both bases are objects of their own. Two
locations at one base, both at known offsets, are compared as ranges of bytes.

The oracle looks at one function, and keeps looking at that one while another is derived from it.
-/

set_option autoImplicit false

namespace BlockReuse.Oracle

/-- Two ranges of bytes from one base. -/
def compareRanges (x : Int) (xSize : Nat) (y : Int) (ySize : Nat) : AliasResult :=
  if x = y ∧ xSize = ySize then .must
  else if x + xSize ≤ y ∨ y + ySize ≤ x then .no
  else .may

/-- The oracle of a function. -/
def basic (f : Func) : Oracle := fun a b =>
  if a = b then .must
  else
    let x := f.origin a.pointer
    let y := f.origin b.pointer
    if x.base = y.base then
      match x.offset, y.offset with
      | some i, some j => compareRanges i a.size j b.size
      | _, _ => .may
    else if f.isObject x.base && f.isObject y.base then .no
    else .may

end BlockReuse.Oracle
