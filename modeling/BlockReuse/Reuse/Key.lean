import BlockReuse.Ir.Instruction

/-!
# Expression keys — when two instructions count as the same computation

A key is an opcode and the first operands, `keyWidth` of them at most. Two instructions that agree
on these are treated as equal even if they differ further on, as long geps and wide phis may.
-/

set_option autoImplicit false

namespace BlockReuse

/-- How many operands take part in a key. -/
def keyWidth : Nat := 5

/-- What reusable instructions are compared by. A slot is empty where the instruction has no
operand. -/
structure ExpressionKey where
  opcode : Opcode
  slots : Vector (Option Value) keyWidth
  deriving DecidableEq, Repr

/-- The key of an instruction, if it may be reused at all. -/
def Instruction.key? (x : Instruction Value) : Option ExpressionKey :=
  if x.isReusable then some ⟨x.opcode, Vector.ofFn fun i => x.operands[i.val]?⟩ else none

end BlockReuse
