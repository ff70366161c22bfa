import BlockReuse.Ir.Relocation
import BlockReuse.Ir.Uses
import BlockReuse.Proofs.Expressions

/-!
# Use counts — moving uses loses none and touches nothing else

Moving the uses of an instruction points every mention of its result at another value, however often
an instruction mentions it. What the instruction had in uses the new value has more, and no other
count changes (`count_map_moveUses`). Each operand stays in its place, and what is no operand stays
as it is (`Instruction.MentionsMoved`).

The mentions are found in one order of the operands and changed in another. Either way an
instruction is reported exactly if it mentioned the result: a relocation changes an operand exactly
if it is such a mention (`changed_relocate_moveUses`).
-/

set_option autoImplicit false

namespace BlockReuse

section

variable {source : Nat} {target : Value}

theorem moveUses_ne_self_iff (apart : target ≠ .inst source) {v : Value} :
    moveUses source target v ≠ v ↔ v = .inst source := by
  unfold moveUses
  split
  next mention =>
    subst mention
    exact iff_of_true apart rfl
  next other => exact iff_of_false (fun moved => moved rfl) other

/-- The source is not mentioned any more, the target in its place too, and every other instruction
as often as before. -/
theorem count_map_moveUses (apart : target ≠ .inst source) (vs : List Value) (index : Nat) :
    (vs.map (moveUses source target)).count (.inst index) =
      if index = source then 0
      else vs.count (.inst index) +
        if target = .inst index then vs.count (.inst source) else 0 := by
  induction vs with
  | nil => simp
  | cons v vs ih =>
    rw [List.map_cons, List.count_cons, ih, List.count_cons, List.count_cons]
    -- A mention adds to the count of the source before, and to that of the target after.
    by_cases mention : v = .inst source
    · have here : moveUses source target v = target := if_pos mention
      grind
    · have here : moveUses source target v = v := if_neg mention
      grind

end

namespace Instruction

/-- The second instruction is the first one with the mentions of `source` moved to `target`: every
other operand is the same in the same place, and so is everything that is no operand. -/
structure MentionsMoved (source : Nat) (target : Value) (x y : Instruction Value) : Prop where
  operands : List.Forall₂ (fun v w => (v = .inst source ∧ w = target) ∨ (v ≠ .inst source ∧ w = v))
    x.operands y.operands
  attributes : y.map (fun _ => ()) = x.map (fun _ => ())
  opcode : y.opcode = x.opcode
  effects : y.effects = x.effects

variable {source : Nat} {target : Value}

theorem mentionsMoved_map_moveUses (x : Instruction Value) :
    MentionsMoved source target x (x.map (moveUses source target)) where
  operands := by
    rw [operands_map, List.forall₂_map_right_iff, List.forall₂_same]
    intro v _
    unfold moveUses
    split
    next mention => exact .inl ⟨mention, rfl⟩
    next other => exact .inr ⟨other, rfl⟩
  attributes := x.map_map _ _
  opcode := opcode_map _ x
  effects := effects_map _ x

/-- A relocation reports a change exactly if the source was mentioned. -/
theorem changed_relocate_moveUses (apart : target ≠ .inst source) (x : Instruction Value) :
    (x.relocate (moveUses source target)).changed = true ↔ .inst source ∈ x.operands := by
  rw [relocate_eq]
  simp [moveUses_ne_self_iff apart, x.visited_perm.mem_iff]

end Instruction

namespace Func

variable {f : Func} {source : Nat} {target : Value}

/-- The users of a result are reported in increasing order. -/
theorem pairwise_usersOf (f : Func) (index : Nat) : (f.usersOf index).Pairwise (· < ·) := by
  have increasing : (f.instructions.zipIdx.map Prod.snd).Pairwise (· < ·) := by
    rw [List.zipIdx_map_snd]
    exact List.pairwise_lt_range'
  exact increasing.sublist (List.filter_sublist.map Prod.snd)

/-- What moving the uses of `source` to `target` makes of a function, and what it reports. -/
structure UsesMoved (f : Func) (source : Nat) (target : Value) (g : Func) (users : List Nat) :
    Prop where
  source_unused : g.useCount source = 0
  target_gains : ∀ index, target = .inst index →
    g.useCount index = f.useCount index + f.useCount source
  others_keep : ∀ index, index ≠ source → target ≠ .inst index →
    g.useCount index = f.useCount index
  instructions :
    List.Forall₂ (Instruction.MentionsMoved source target) f.instructions g.instructions
  names : g.names = f.names
  blocks : g.blocks = f.blocks
  head : g.name = f.name ∧ g.arguments = f.arguments ∧ g.globals = f.globals
  increasing : users.Pairwise (· < ·)
  mem_users : ∀ user, user ∈ users ↔ ∃ x, f.instruction? user = some x ∧ .inst source ∈ x.operands
  /-- Every instruction is relocated, and those that a relocation changes are reported. -/
  relocated : ∀ index x, f.instruction? index = some x →
    g.instruction? index = some (x.relocate (moveUses source target)).instruction ∧
      (index ∈ users ↔ (x.relocate (moveUses source target)).changed = true)

/-- **Moving uses loses none of them and touches nothing else.** -/
theorem usesMoved_replaceUses (f : Func) (apart : target ≠ .inst source) :
    UsesMoved f source target (f.replaceUses source target).1 (f.replaceUses source target).2 := by
  have moved : f.replaceUses source target =
      (f.mapOperands (moveUses source target), f.usersOf source) := if_neg apart
  rw [moved]
  have counts (index : Nat) := count_map_moveUses apart f.operands index
  exact {
    source_unused := by
      rw [useCount, operands_mapOperands, counts, if_pos rfl]
    target_gains := by
      rintro index rfl
      have other : index ≠ source := fun same => apart (congrArg Value.inst same)
      rw [useCount, operands_mapOperands, counts, if_neg other, if_pos rfl]
      rfl
    others_keep := by
      intro index other away
      rw [useCount, operands_mapOperands, counts, if_neg other, if_neg away]
      rfl
    instructions := by
      rw [instructions_mapOperands, List.forall₂_map_right_iff, List.forall₂_same]
      exact fun x _ => x.mentionsMoved_map_moveUses
    names := names_mapOperands f _
    blocks := blocks_mapOperands f _
    head := ⟨rfl, rfl, rfl⟩
    increasing := f.pairwise_usersOf source
    mem_users := by
      intro user
      simp only [mem_usersOf, instruction?_eq_getElem?]
    relocated := by
      intro index x found
      constructor
      · rw [instruction?_mapOperands, found, Instruction.relocate_eq, Option.map_some]
      · rw [Instruction.changed_relocate_moveUses apart, mem_usersOf, ← instruction?_eq_getElem?,
          found]
        simp }

/-- The second of two equal sums is mentioned twice by each of two instructions. -/
def twiceMentioned : Func where
  name := "f"
  arguments := ["a"]
  globals := []
  definitions := [⟨.binary .add (.argument 0) (.const 1), some "x"⟩,
    ⟨.binary .add (.argument 0) (.const 1), some "y"⟩, ⟨.binary .mul (.inst 1) (.inst 1), some "z"⟩,
    ⟨.select (.inst 1) (.inst 0) (.inst 1), some "w"⟩,
    ⟨.store (.int 32) (.inst 2) (.argument 0) true, none⟩, ⟨.ret (some (.inst 3)), none⟩]
  blocks := [⟨"e", [0, 1, 2, 3, 4, 5]⟩]
  placed := by decide

theorem usesMoved_twiceMentioned :
    UsesMoved twiceMentioned 1 (.inst 0) (twiceMentioned.replaceUses 1 (.inst 0)).1 [2, 3] ∧
      twiceMentioned.useCount 0 = 1 ∧ twiceMentioned.useCount 1 = 4 ∧
      (twiceMentioned.replaceUses 1 (.inst 0)).1.useCount 0 = 5 :=
  ⟨usesMoved_replaceUses twiceMentioned (by decide), by decide, by decide, by decide⟩

end Func

end BlockReuse
