import BlockReuse.Ir.Func

/-!
# Relocation — visiting the operands of an instruction and replacing them one by one

`traverse` visits every operand once, in the order of `visited`, and puts what the visit yields in
its place; the visit may have effects. Without effects it is `map`. `relocate` keeps account of the
visits: which operands were visited, and whether a visit has replaced one by another.
-/

set_option autoImplicit false

namespace BlockReuse

namespace Instruction

variable {ν μ : Type}

/-- Visits the value that comes from a block. -/
def visitIncoming {m : Type → Type} [Monad m] (visit : ν → m μ) (p : Nat × ν) : m (Nat × μ) :=
  return (p.1, ← visit p.2)

/-- The instruction with each operand replaced by what visiting it yields. -/
def traverse {m : Type → Type} [Monad m] (visit : ν → m μ) : Instruction ν → m (Instruction μ)
  | binary op left right => return .binary op (← visit left) (← visit right)
  | compare p left right => return .compare p (← visit left) (← visit right)
  | extractElement vector index => return .extractElement (← visit vector) (← visit index)
  | insertElement vector value index =>
    return .insertElement (← visit vector) (← visit value) (← visit index)
  | shuffleVector left right mask =>
    return .shuffleVector (← visit left) (← visit right) (← visit mask)
  | gep element base indices => return .gep element (← visit base) (← indices.mapM visit)
  | extractValue aggregate path => return .extractValue (← visit aggregate) path
  | insertValue aggregate value path =>
    return .insertValue (← visit aggregate) (← visit value) path
  | phi incoming => return .phi (← incoming.mapM (visitIncoming visit))
  | select condition ifTrue ifFalse =>
    return .select (← visit condition) (← visit ifTrue) (← visit ifFalse)
  | cast op value target => return .cast op (← visit value) target
  | load type pointer isVolatile => return .load type (← visit pointer) isVolatile
  | store type value pointer isVolatile => do
    let pointer ← visit pointer
    let value ← visit value
    return .store type value pointer isVolatile
  | alloca type => return .alloca type
  | call callee arguments effects => do
    let arguments ← arguments.mapM visit
    let callee ← visit callee
    return .call callee arguments effects
  | fence => return .fence
  | branch target => return .branch target
  | condBranch condition ifTrue ifFalse => return .condBranch (← visit condition) ifTrue ifFalse
  | ret none => return .ret none
  | ret (some value) => return .ret (some (← visit value))

/-- A visit that yields the image of an operand and keeps account of having been made. -/
def tracked {σ : Type} (g : ν → μ) (account : σ → ν → σ) (v : ν) : StateM σ μ :=
  fun s => (g v, account s v)

/-- What some visits amount to: the operands visited, in order, and whether one of them changed. -/
structure Visits (ν : Type) where
  visited : List ν
  changed : Bool

/-- One more visit, behind the earlier ones. What an earlier visit has changed stays changed. -/
def Visits.add [DecidableEq ν] (g : ν → ν) (visits : Visits ν) (v : ν) : Visits ν :=
  ⟨visits.visited ++ [v], decide (g v ≠ v) || visits.changed⟩

/-- An instruction after its operands were visited, and what the visits amount to. -/
structure Relocation (ν : Type) extends Visits ν where
  instruction : Instruction ν

/-- Replaces each operand by its image. -/
def relocate [DecidableEq ν] (g : ν → ν) (x : Instruction ν) : Relocation ν :=
  let (instruction, visits) := Id.run ((x.traverse (tracked g (Visits.add g))).run ⟨[], false⟩)
  ⟨visits, instruction⟩

section

variable {σ : Type} (g : ν → μ) (account : σ → ν → σ)

theorem tracked_run (v : ν) (s : σ) :
    (tracked g account v).run s = pure (g v, account s v) := rfl

theorem mapM_tracked (vs : List ν) (s : σ) :
    (vs.mapM (tracked g account)).run s = pure (vs.map g, vs.foldl account s) := by
  induction vs generalizing s with
  | nil => simp
  | cons v vs ih => simp [List.mapM_cons, tracked_run, ih]

theorem mapM_tracked_incoming (incoming : List (Nat × ν)) (s : σ) :
    (incoming.mapM (visitIncoming (tracked g account))).run s =
      pure (incoming.map fun (block, v) => (block, g v),
        (incoming.map Prod.snd).foldl account s) := by
  induction incoming generalizing s with
  | nil => simp
  | cons p incoming ih => simp [List.mapM_cons, visitIncoming, tracked_run, ih]

/-- A tracked traversal maps the operands and visits each of them once, in the order of `visited`,
whatever account is kept. -/
theorem traverse_tracked (x : Instruction ν) (s : σ) :
    (x.traverse (tracked g account)).run s = pure (x.map g, x.visited.foldl account s) := by
  cases x with
  | gep element base indices =>
    simp [traverse, map, visited, operands, tracked_run, mapM_tracked]
  | phi incoming => simp [traverse, map, visited, operands, mapM_tracked_incoming]
  | call callee arguments effects =>
    simp [traverse, map, visited, operands, tracked_run, mapM_tracked]
  | ret value => cases value <;> rfl
  | _ => rfl

end

theorem foldl_add [DecidableEq ν] (g : ν → ν) (vs : List ν) (visits : Visits ν) :
    vs.foldl (Visits.add g) visits =
      ⟨visits.visited ++ vs, vs.any (fun v => decide (g v ≠ v)) || visits.changed⟩ := by
  induction vs generalizing visits with
  | nil => simp
  | cons v vs ih => simp [ih, Visits.add, Bool.or_left_comm, Bool.or_assoc]

/-- Relocating maps the operands, and reports a change exactly if a visit made one. -/
theorem relocate_eq [DecidableEq ν] (g : ν → ν) (x : Instruction ν) :
    x.relocate g = ⟨⟨x.visited, x.visited.any fun v => decide (g v ≠ v)⟩, x.map g⟩ := by
  simp [relocate, traverse_tracked, foldl_add]

end Instruction

/-- Relocates one instruction of a function, if it has it. -/
def Func.relocateAt? (f : Func) (index : Nat) (g : Value → Value) :
    Option (Instruction.Relocation Value × Func) := do
  let x ← f.instruction? index
  let relocation := x.relocate g
  let changed ← f.modifyDefinition? index fun d =>
    { d with instruction := relocation.instruction }
  return (relocation, changed)

end BlockReuse
