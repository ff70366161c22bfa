import BlockReuse.Ir.Value

/-!
# Memory — what an instruction may do to memory, and the bytes an access touches
-/

set_option autoImplicit false

namespace BlockReuse

/-- Whether an instruction may read memory and whether it may write it. -/
structure Effects where
  reads : Bool
  writes : Bool
  deriving DecidableEq, Repr, Inhabited

namespace Effects

/-- Touches no memory. -/
def none : Effects := ⟨false, false⟩

/-- May read memory and never writes it. -/
def read : Effects := ⟨true, false⟩

/-- May write memory and never reads it. -/
def write : Effects := ⟨false, true⟩

/-- May read memory and may write it. -/
def readWrite : Effects := ⟨true, true⟩

end Effects

/-- The bytes a load or a store touches: `size` of them, from the address `pointer` names. -/
structure Location where
  pointer : Value
  size : Nat
  deriving DecidableEq, Repr

end BlockReuse
