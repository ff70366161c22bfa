import BlockReuse.Ir.Memory

/-!
# Alias oracles — whether two memory locations may overlap

An oracle answers a question about two locations. The pass asks it whether a store leaves a load
alone, and trusts only the answer that the two never overlap; an oracle is sound when that answer
is true.
-/

set_option autoImplicit false

namespace BlockReuse

/-- What is known about two locations. -/
inductive AliasResult where
  /-- They never overlap. -/
  | no
  /-- Nothing is known. -/
  | may
  /-- They are the same bytes. -/
  | must
  deriving DecidableEq, Repr

/-- An answer for every two locations. -/
abbrev Oracle := Location → Location → AliasResult

namespace Oracle

/-- Knows only that equal locations are the same bytes. -/
def conservative : Oracle := fun a b => if a = b then .must else .may

end Oracle

end BlockReuse
