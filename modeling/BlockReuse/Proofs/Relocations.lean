import BlockReuse.Ir.Relocation
import BlockReuse.Proofs.Justification

/-!
# Relocations — replacing operands one by one is mapping them

The operands of an instruction are listed in one place and replaced in another, kind by kind in
both, and the second does not always go in the order of the first. Still a relocation replaces
exactly what is listed, each operand once and in its place, and reports a change exactly if it made
one (`Instruction.relocatedBy_relocate`). That the visits are made once each holds of any account
that is kept of them, not only of the one that a relocation keeps (`Instruction.traverse_tracked`).
-/

set_option autoImplicit false

namespace BlockReuse.Instruction

variable {ν : Type}

/-- A map changes nothing exactly if it leaves every operand as it is. -/
theorem map_eq_self_iff {g : ν → ν} {x : Instruction ν} :
    x.map g = x ↔ ∀ v ∈ x.operands, g v = v := by
  constructor
  · intro same
    have listed : x.operands.map g = x.operands.map fun v => v := by
      rw [← operands_map, same, List.map_id']
    exact List.map_inj_left.mp listed
  · intro kept
    exact (map_congr kept).trans x.map_id

/-- What replacing each operand of an instruction by its image comes to. -/
structure RelocatedBy (g : ν → ν) (x : Instruction ν) (r : Relocation ν) : Prop where
  operands : r.instruction.operands = x.operands.map g
  opcode : r.instruction.opcode = x.opcode
  isVolatile : r.instruction.isVolatile = x.isVolatile
  effects : r.instruction.effects = x.effects
  targets : r.instruction.targets = x.targets
  /-- Nothing else differs either. -/
  attributes : r.instruction.map (fun _ => ()) = x.map (fun _ => ())
  changed : r.changed = true ↔ ∃ v ∈ x.operands, g v ≠ v
  unchanged : r.changed = false ↔ r.instruction = x
  visited : r.visited.Perm x.operands
  /-- Each operand is visited once, whatever account is kept of the visits. -/
  visits : ∀ {σ : Type} (account : σ → ν → σ) (s : σ),
    (x.traverse (tracked g account)).run s = pure (r.instruction, r.visited.foldl account s)

/-- **A relocation is the map over the operands.** -/
theorem relocatedBy_relocate [DecidableEq ν] (g : ν → ν) (x : Instruction ν) :
    RelocatedBy g x (x.relocate g) := by
  rw [relocate_eq]
  have changed : (x.visited.any fun v => decide (g v ≠ v)) = true ↔ ∃ v ∈ x.operands, g v ≠ v := by
    simp [x.visited_perm.mem_iff]
  exact {
    operands := operands_map g x
    opcode := opcode_map g x
    isVolatile := isVolatile_map g x
    effects := effects_map g x
    targets := targets_map g x
    attributes := x.map_map _ g
    changed := changed
    unchanged := by
      rw [map_eq_self_iff, ← Bool.not_eq_true, changed]
      simp
    visited := x.visited_perm
    visits := fun account s => traverse_tracked g account x s }

/-- A store is visited from its address on, and a call from its arguments on; a mention that is its
own image is no change, and one change is not forgotten over the visits behind it. -/
example :
    let x : Instruction Nat := .store (.int 8) 4 7 true
    let y : Instruction Nat := .call 2 [7, 3] .read
    let g (v : Nat) : Nat := if v = 7 then 8 else v
    (x.relocate g).instruction = .store (.int 8) 4 8 true ∧ (x.relocate g).visited = [7, 4] ∧
    (x.relocate g).changed = true ∧
    (y.relocate g).instruction = .call 2 [8, 3] .read ∧ (y.relocate g).visited = [7, 3, 2] ∧
    (y.relocate g).changed = true ∧ (y.relocate fun v => v).changed = false := by
  decide

end BlockReuse.Instruction
