import BlockReuse.Ir.Func

/-!
# Uses — who mentions the result of an instruction, and moving those mentions elsewhere

`replaceUses` points every mention of one instruction's result at another value and reports the
instructions it changed. Reporting reads `operands` and changing goes through `map`; the two agree
because mapping changes operands position by position.
-/

set_option autoImplicit false

namespace BlockReuse

/-- What moving the uses of `source` to `target` does to an operand. -/
def moveUses (source : Nat) (target v : Value) : Value := if v = .inst source then target else v

@[simp]
theorem moveUses_source (source : Nat) (target : Value) :
    moveUses source target (.inst source) = target := if_pos rfl

theorem moveUses_of_ne {source : Nat} {target v : Value} (other : v ≠ .inst source) :
    moveUses source target v = v := if_neg other

namespace Func

/-- Every operand of every instruction, in order. -/
def operands (f : Func) : List Value := f.instructions.flatMap Instruction.operands

/-- How many operands of the function mention the result of `index`. -/
def useCount (f : Func) (index : Nat) : Nat := f.operands.count (.inst index)

/-- The instructions that mention the result of `index`, in increasing order. -/
def usersOf (f : Func) (index : Nat) : List Nat :=
  (f.instructions.zipIdx.filter fun (x, _) => decide (Value.inst index ∈ x.operands)).map Prod.snd

/-- The function after every mention of `source` was turned into `target`. -/
def redirectUses (f : Func) (source : Nat) (target : Value) : Func :=
  f.mapOperands (moveUses source target)

/-- Moves the uses of `source` to `target` and reports the instructions that changed. An
instruction's uses are not moved to itself. -/
def replaceUses (f : Func) (source : Nat) (target : Value) : Func × List Nat :=
  if target = .inst source then (f, []) else (f.redirectUses source target, f.usersOf source)

/-- A user is an instruction of the function that mentions the result. -/
theorem mem_usersOf {f : Func} {index user : Nat} :
    user ∈ f.usersOf index ↔
      ∃ x, f.instructions[user]? = some x ∧ Value.inst index ∈ x.operands := by
  simp [usersOf, List.mem_zipIdx_iff_getElem?]

/-- A function has no more users of one result than it has instructions. -/
theorem length_usersOf_le (f : Func) (index : Nat) :
    (f.usersOf index).length ≤ f.instructions.length := by
  simpa [usersOf] using List.length_filter_le
    (fun p : Instruction Value × Nat => decide (Value.inst index ∈ p.1.operands))
    f.instructions.zipIdx

/-- Mapping the operands of a function maps the list of them. -/
@[simp]
theorem operands_mapOperands (f : Func) (g : Value → Value) :
    (f.mapOperands g).operands = f.operands.map g := by
  simp [operands, List.flatMap_map, List.map_flatMap]

/-- A result that has a user is an operand. -/
theorem inst_mem_operands_of_mem_usersOf {f : Func} {index user : Nat}
    (h : user ∈ f.usersOf index) : Value.inst index ∈ f.operands := by
  obtain ⟨x, hx, hv⟩ := mem_usersOf.mp h
  exact List.mem_flatMap.mpr ⟨x, List.mem_of_getElem? hx, hv⟩

@[simp]
theorem blocks_redirectUses (f : Func) (source : Nat) (target : Value) :
    (f.redirectUses source target).blocks = f.blocks := rfl

@[simp]
theorem length_instructions_redirectUses (f : Func) (source : Nat) (target : Value) :
    (f.redirectUses source target).instructions.length = f.instructions.length := by
  simp [redirectUses]

end Func

end BlockReuse
