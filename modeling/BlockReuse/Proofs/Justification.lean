import BlockReuse.Proofs.Scanning

/-!
# Justification — a pass replaces results by earlier ones with the same key, and nothing else

Each move points uses at an earlier member of the same block that has, at that moment, the same key.
Later moves change the operands of both ends alike, so the two keys stay equal to the end of the
pass, also when the uses are moved on. A pass is therefore one substitution of operands, and each
result it replaces has the key of its replacement in the function the pass returns
(`exists_substitution`).
-/

set_option autoImplicit false

namespace BlockReuse

/-! ## What an instruction is besides its operands -/

namespace Instruction

variable {ν μ : Type}

/-- Whether the instruction is a volatile access. -/
def isVolatile : Instruction ν → Bool
  | load _ _ isVolatile => isVolatile
  | store _ _ _ isVolatile => isVolatile
  | _ => false

/-- The blocks that a branch names. -/
def targets : Instruction ν → List Nat
  | branch target => [target]
  | condBranch _ ifTrue ifFalse => [ifTrue, ifFalse]
  | _ => []

@[simp]
theorem isVolatile_map (g : ν → μ) (x : Instruction ν) : (x.map g).isVolatile = x.isVolatile := by
  cases x <;> rfl

@[simp]
theorem targets_map (g : ν → μ) (x : Instruction ν) : (x.map g).targets = x.targets := by
  cases x <;> rfl

end Instruction

/-! ## Places in a block -/

/-- `earlier` and `later` stand in one block, in this order. -/
def Func.Precedes (f : Func) (earlier later : Nat) : Prop :=
  ∃ b ∈ f.blocks, later ∈ b.members ∧ b.members.idxOf earlier < b.members.idxOf later

theorem Func.Precedes.trans {f : Func} {first second third : Nat}
    (before : f.Precedes first second) (after : f.Precedes second third) :
    f.Precedes first third := by
  obtain ⟨b, bMem, secondMem, before⟩ := before
  obtain ⟨c, cMem, thirdMem, after⟩ := after
  obtain ⟨n, bFound⟩ := List.mem_iff_getElem?.mp bMem
  obtain ⟨m, cFound⟩ := List.mem_iff_getElem?.mp cMem
  have same := block_eq_of_mem bFound cFound secondMem (mem_of_idxOf_lt thirdMem after)
  subst same
  have same : b = c := Option.some.inj (bFound.symm.trans cFound)
  subst same
  exact ⟨b, bMem, thirdMem, Nat.lt_trans before after⟩

/-! ## The substitution a pass makes -/

/-- In `g`, the result of `target` may stand for that of `source`, which stands later in a block of
`f` and has the same key. -/
def Replaces (f g : Func) (source target : Nat) : Prop :=
  f.Precedes target source ∧ ∃ key, g.key? source = some key ∧ g.key? target = some key

/-- Moves that were justified when they were made make up a substitution that is justified in the
end. -/
theorem exists_substitution {f g : Func} {events : List Event}
    (moves : EachMove (Replaces f) g events) :
    ∃ σ : Value → Value, g.after events = g.mapOperands σ ∧
      ∀ v, σ v = v ∨ ∃ i j, v = .inst i ∧ σ v = .inst j ∧ Replaces f (g.after events) i j := by
  induction events generalizing g with
  | nil => exact ⟨fun v => v, g.mapOperands_id.symm, fun v => .inl rfl⟩
  | cons event events ih =>
    cases event with
    | memoryWritten writer block removed queries => exact ih moves
    | newExpression index => exact ih moves
    | redirected source target users =>
      obtain ⟨⟨precedes, key, sourceKey, targetKey⟩, moves⟩ := moves
      obtain ⟨σ, after, justified⟩ := ih moves
      have whole : g.after (.redirected source target users :: events) =
          g.mapOperands (fun v => σ (moveUses source (.inst target) v)) :=
        after.trans (g.mapOperands_mapOperands _ σ)
      refine ⟨_, whole, fun v => ?_⟩
      by_cases moved : v = .inst source
      · subst moved
        -- the two ends of this move have one key in the end, for all moves change both alike
        have ends : Replaces f (g.after (.redirected source target users :: events))
            source target :=
          ⟨precedes, _, by rw [whole, Func.key?_mapOperands, sourceKey]; rfl,
            by rw [whole, Func.key?_mapOperands, targetKey]; rfl⟩
        rw [moveUses_source]
        rcases justified (.inst target) with stays | ⟨i, j, same, goes, next, key', iKey, jKey⟩
        · exact .inr ⟨source, target, rfl, stays, ends⟩
        · obtain rfl := Value.inst.inj same
          obtain ⟨-, key, sourceKey, targetKey⟩ := ends
          have agree : key = key' := Option.some.inj (targetKey.symm.trans iKey)
          subst agree
          exact .inr ⟨source, j, rfl, goes, next.trans precedes, key, sourceKey, jKey⟩
      · rw [moveUses_of_ne moved]
        exact justified v

/-- Every move of a pass is justified when it is made. -/
theorem reuse_replaces (oracle : Oracle) (f : Func) :
    (reuse oracle f).func = f.after (reuse oracle f).events ∧
      EachMove (Replaces f) f (reuse oracle f).events := by
  refine reuse_moves oracle f fun prior block b found _ _ => ?_
  have mem : b ∈ f.blocks := List.mem_of_getElem? found
  have mem' : b ∈ (f.after prior).blocks := by rwa [Func.blocks_after]
  have consistent := Scan.consistent_run mem' oracle block (List.prefix_refl b.members)
  refine consistent.moves.mono fun g source target ⟨key, repeated⟩ => ?_
  rw [Scan.scanned_run] at repeated
  exact ⟨⟨b, mem, repeated.mem, repeated.earlier⟩, key, repeated.source_key, repeated.target_key⟩

/-! ## What a pass changes -/

/-- A pass keeps everything about a function but operands, and an operand it changes is the result
of a reusable instruction, which it replaces by the result of an earlier reusable instruction of the
same block; the two have one key in the function the pass returns. -/
theorem reuse_changes_justified_operands (oracle : Oracle) (f : Func) :
    (reuse oracle f).func.name = f.name ∧
    (reuse oracle f).func.arguments = f.arguments ∧
    (reuse oracle f).func.globals = f.globals ∧
    (reuse oracle f).func.names = f.names ∧
    (reuse oracle f).func.blocks = f.blocks ∧
    (reuse oracle f).func.instructions.length = f.instructions.length ∧
    ∀ index x, f.instruction? index = some x →
      ∃ x', (reuse oracle f).func.instruction? index = some x' ∧
        x'.opcode = x.opcode ∧
        x'.operands.length = x.operands.length ∧
        x'.isVolatile = x.isVolatile ∧
        x'.effects = x.effects ∧
        x'.targets = x.targets ∧
        ∀ (slot : Nat) (v v' : Value), x.operands[slot]? = some v → x'.operands[slot]? = some v' →
          v' = v ∨
          ∃ i j y z key, v = .inst i ∧ v' = .inst j ∧ f.Precedes j i ∧
            (reuse oracle f).func.instruction? i = some y ∧ y.isReusable = true ∧
            (reuse oracle f).func.instruction? j = some z ∧ z.isReusable = true ∧
            y.key? = some key ∧ z.key? = some key := by
  obtain ⟨func, moves⟩ := reuse_replaces oracle f
  obtain ⟨σ, after, justified⟩ := exists_substitution moves
  rw [← func] at after justified
  simp only [after]
  refine ⟨rfl, rfl, rfl, by simp, rfl, by simp, fun index x found => ?_⟩
  refine ⟨x.map σ, by simp [found], by simp, by simp, by simp, by simp, by simp, ?_⟩
  intro slot v v' old new
  rw [Instruction.operands_map, List.getElem?_map, old] at new
  cases new
  rcases justified v with same | ⟨i, j, old, new, precedes, key, iKey, jKey⟩
  · exact .inl same
  · rw [after] at iKey jKey
    obtain ⟨y, yFound, yKey⟩ := Func.key?_eq_some.mp iKey
    obtain ⟨z, zFound, zKey⟩ := Func.key?_eq_some.mp jKey
    exact .inr ⟨i, j, y, z, key, old, new, precedes, yFound,
      Instruction.isReusable_of_key? yKey, zFound, Instruction.isReusable_of_key? zKey, yKey, zKey⟩

end BlockReuse
