import BlockReuse.Proofs.Renumbering

/-!
# Precision — no oracle loses a merge that the conservative one finds

Under another oracle more loads stay live, so representatives and operands differ from those of the
conservative run, and the oracle is asked about pointers that the other run never had. The runs are
therefore not compared step by step but through the numberings they compute: numbering by the
conservative oracle first makes no difference to the numbering by another one
(`Func.Straight.canon_canon_conservative`). So the second numbering is a function of the first, and
what the first makes equal stays equal.

The reason is in the leaders. The conservative oracle puts no two locations apart, so between a load
and its leader nothing writes; whatever oracle is asked, the leader can then stand for the load, and
what can stand for an instruction has the leader that the instruction has
(`Func.leader_eq_of_standsFor`).
-/

set_option autoImplicit false

namespace BlockReuse

theorem Oracle.conservative_ne_no (a b : Location) : Oracle.conservative a b ≠ .no := by
  unfold conservative
  split <;> decide

namespace Func

variable {f : Func} {oracle : Oracle} {i j k : Nat} {key : ExpressionKey}

/-! ## Instructions that share a leader -/

/-- Of two instructions that can stand for a third, the second in front of it, the first can stand
for the second. -/
theorem StandsFor.between (first : f.StandsFor Instruction.isReusable oracle i k)
    (second : f.StandsFor Instruction.isReusable oracle j k) (le : j ≤ k)
    (keyed : f.key? k = some key) : f.StandsFor Instruction.isReusable oracle i j := by
  have iKeyed := first.exists_key? keyed
  have jKeyed := second.exists_key? keyed
  have block : f.InOneBlock i j := first.1.trans second.1.symm
  refine standsFor_of_key? block iKeyed jKeyed fun load l before behind inside => ?_
  have loads := isLoad_of_key? keyed
  rw [load] at loads
  refine (leavesAlone_of_location? (location?_eq_of_key? iKeyed keyed load)).mpr ?_
  exact first.2.2 loads l (Nat.lt_of_lt_of_le before le) behind (inside.trans second.1)

/-- What can stand for an instruction behind it has the same leader. -/
theorem leader_eq_of_standsFor (stands : f.StandsFor Instruction.isReusable oracle j i) (le : j ≤ i)
    (keyed : f.key? i = some key) :
    f.leader Instruction.isReusable oracle i = f.leader Instruction.isReusable oracle j := by
  have jKeyed := stands.exists_key? keyed
  apply Nat.le_antisymm
  · by_cases own : f.leader Instruction.isReusable oracle j = j
    · rw [own]
      exact leader_le_of_standsFor (any_isReusable_of_key? keyed) stands
    · exact leader_le_of_standsFor (any_isReusable_of_key? keyed)
        ((standsFor_leader own).trans stands keyed)
  · by_cases own : f.leader Instruction.isReusable oracle i = i
    · rw [own]
      exact Nat.le_trans (f.leader_le _ oracle j) le
    · exact leader_le_of_standsFor (any_isReusable_of_key? jKeyed)
        ((standsFor_leader own).between stands le keyed)

/-! ## The conservative oracle -/

/-- Only what does not write leaves a load alone in the eyes of the conservative oracle. -/
theorem mayWrite_of_leavesAlone {load writer : Nat}
    (alone : f.LeavesAlone .conservative load writer)
    {x : Instruction Value} (found : f.instruction? writer = some x) : x.mayWrite = false := by
  cases writes : x.mayWrite with
  | false => rfl
  | true =>
    obtain ⟨-, loaded, stored, -, -, apart⟩ := alone x found writes
    exact absurd apart (Oracle.conservative_ne_no loaded stored)

/-- What can stand for an instruction in the eyes of the conservative oracle can do so in those of
any other, also when operands are changed so that the two still have one key. -/
theorem StandsFor.of_conservative {σ τ : Value → Value}
    (stands : (f.mapOperands σ).StandsFor Instruction.isReusable .conservative j i)
    (jKeyed : (f.mapOperands τ).key? j = some key) (iKeyed : (f.mapOperands τ).key? i = some key) :
    (f.mapOperands τ).StandsFor Instruction.isReusable oracle j i := by
  refine standsFor_of_key? stands.1 jKeyed iKeyed fun load k before behind inside => ?_
  have loads : (f.mapOperands σ).isLoad i = true := by
    rw [← isLoad_of_key? iKeyed, isLoad, instruction?_mapOperands] at load
    rw [isLoad, instruction?_mapOperands]
    cases found : f.instruction? i <;> simp_all
  have alone := stands.2.2 loads k before behind inside
  intro x found writes
  rw [instruction?_mapOperands] at found
  obtain ⟨y, yFound, rfl⟩ := Option.map_eq_some_iff.mp found
  have silent := mayWrite_of_leavesAlone alone (x := y.map σ) (by simp [yFound])
  rw [Instruction.mayWrite_map] at silent writes
  rw [silent] at writes
  cases writes

/-- Where numbering results first by the conservative oracle makes no difference, the keys of the
two numbered functions correspond. -/
theorem Straight.key?_numbered (straight : f.Straight)
    (same : ∀ k < i, f.canon Instruction.isReusable oracle
        (f.canon Instruction.isReusable .conservative (.inst k)) =
      f.canon Instruction.isReusable oracle (.inst k)) (le : j ≤ i) :
    (f.numbered oracle).key? j = ((f.numbered .conservative).key? j).map
      (ExpressionKey.map (f.canon Instruction.isReusable oracle)) := by
  rw [← key?_mapOperands, key?, key?, numbered, numbered, mapOperands_mapOperands,
    instruction?_mapOperands, instruction?_mapOperands]
  cases found : f.instruction? j with
  | none => rfl
  | some x =>
    rw [Option.map_some, Option.map_some]
    congr 2
    refine Instruction.map_congr fun v mem => ?_
    cases v with
    | inst k =>
      have before := straight.earlier j x found k mem
      exact (same k (Nat.lt_of_lt_of_le before le)).symm
    | argument index => rfl
    | global index => rfl
    | const value => rfl

/-- Numbering by the conservative oracle first makes no difference to the numbering by another. -/
theorem Straight.canon_canon_conservative (straight : f.Straight) (oracle : Oracle) (v : Value) :
    f.canon Instruction.isReusable oracle (f.canon Instruction.isReusable .conservative v) =
      f.canon Instruction.isReusable oracle v := by
  cases v with
  | inst i =>
    induction i using Nat.strongRecOn with
    | ind i ih =>
      by_cases inside : i < f.instructions.length
      · rw [straight.canon_eq_leader inside]
        by_cases own : (f.numbered .conservative).leader Instruction.isReusable .conservative i = i
        · rw [own]
        · have le := (f.numbered .conservative).leader_le Instruction.isReusable .conservative i
          have stands := standsFor_leader own
          cases keyed : (f.numbered .conservative).key? i with
          | none => exact absurd (leader_of_key?_none keyed) own
          | some key =>
            have leaderKey := straight.key?_numbered ih le
            have iKey := straight.key?_numbered ih (Nat.le_refl i)
            rw [stands.exists_key? keyed] at leaderKey
            rw [keyed] at iKey
            have stands' : (f.numbered oracle).StandsFor Instruction.isReusable oracle _ i :=
              stands.of_conservative leaderKey iKey
            rw [straight.canon_eq_leader (Nat.lt_of_le_of_lt le inside),
              straight.canon_eq_leader inside]
            exact congrArg Value.inst (leader_eq_of_standsFor stands' le iKey).symm
      · rw [canon_inst_of_length_le (Nat.le_of_not_lt inside)]
  | argument index => rfl
  | global index => rfl
  | const value => rfl

/-! ## What the slots of a function hold -/

/-- The value in an operand slot, if the function has the slot. -/
def operand? (f : Func) (index slot : Nat) : Option Value :=
  (f.instruction? index).bind fun x => x.operands[slot]?

theorem operand?_mapOperands (f : Func) (σ : Value → Value) (index slot : Nat) :
    (f.mapOperands σ).operand? index slot = (f.operand? index slot).map σ := by
  rw [operand?, operand?, instruction?_mapOperands]
  cases f.instruction? index <;> simp

end Func

/-- Slots of a function without forward references that hold one value after a pass with the
conservative oracle hold one value after a pass with any oracle. -/
theorem operands_merged_of_conservative {f : Func} (straight : f.Straight) (oracle : Oracle)
    {i s j t : Nat}
    (merged : (reuse .conservative f).func.operand? i s =
      (reuse .conservative f).func.operand? j t) :
    (reuse oracle f).func.operand? i s = (reuse oracle f).func.operand? j t := by
  rw [straight.func_reuse, Func.numbered, Func.operand?_mapOperands, Func.operand?_mapOperands]
    at merged ⊢
  have again := congrArg (Option.map (f.canon Instruction.isReusable oracle)) merged
  simpa [Function.comp_def, straight.canon_canon_conservative] using again

/-- A load in front of a store through another pointer, and two loads of the same pointer behind
it. -/
def loadsAroundStore : Func where
  name := "f"
  arguments := ["p", "q"]
  globals := []
  definitions :=
    [⟨.load (.int 32) (.argument 0) false, some "a"⟩,
      ⟨.store (.int 32) (.const 0) (.argument 1) false, none⟩,
      ⟨.load (.int 32) (.argument 0) false, some "b"⟩,
      ⟨.load (.int 32) (.argument 0) false, some "c"⟩,
      ⟨.binary .add (.inst 2) (.inst 3), some "s"⟩, ⟨.ret (some (.inst 4)), none⟩]
  blocks := [⟨"entry", [0, 1, 2, 3, 4, 5]⟩]
  placed := by decide

/-- The conservative oracle lets the loads behind the store be one; an oracle that knows the
pointers apart replaces both by the load in front of it, and they are one still. -/
theorem operands_merged_loadsAroundStore :
    loadsAroundStore.Straight ∧
    (reuse .conservative loadsAroundStore).func.operand? 4 0 = some (.inst 2) ∧
    (reuse .conservative loadsAroundStore).func.operand? 4 1 = some (.inst 2) ∧
    (reuse .byPointer loadsAroundStore).func.operand? 4 0 = some (.inst 0) ∧
    (reuse .byPointer loadsAroundStore).func.operand? 4 0 =
      (reuse .byPointer loadsAroundStore).func.operand? 4 1 :=
  ⟨by decide +kernel, by decide +kernel, by decide +kernel, by decide +kernel,
    operands_merged_of_conservative (by decide +kernel) .byPointer (by decide +kernel)⟩

end BlockReuse
