import Mathlib.Data.List.Nodup
import BlockReuse.Ir.Uses
import BlockReuse.Reuse.Table

/-!
# Expressions — keys under a change of operands, and what a table holds

Moving uses changes operands, and so keys. The two changes are one: the key of a mapped instruction
is the mapped key (`Instruction.key?_map`), so two instructions with one key keep having one key,
whatever is done to all operands at once.

A key leaves out what the opcode and the first operands do not say. For a reusable instruction that
has no more operands than a key has slots this is nothing: the key tells the instruction
(`Instruction.eq_of_key?_eq`).
-/

set_option autoImplicit false

namespace BlockReuse

/-! ## Instructions from their parts -/

namespace Instruction

variable {ν μ ξ : Type}

@[simp]
theorem map_map (h : μ → ξ) (g : ν → μ) (x : Instruction ν) :
    (x.map g).map h = x.map (fun v => h (g v)) := by
  cases x with
  | ret value => cases value <;> rfl
  | _ => simp [map, Function.comp_def]

theorem written_map (g : ν → μ) (x : Instruction ν) : (x.map g).written = x.written.map g := by
  have ofOperands := x.operands_map g
  cases x with
  | call callee arguments effects => rfl
  | _ => exact ofOperands

@[simp]
theorem mayWrite_map (g : ν → μ) (x : Instruction ν) : (x.map g).mayWrite = x.mayWrite := by
  simp [mayWrite]

/-- What is reused never writes. -/
theorem mayWrite_of_isReusable {x : Instruction ν} (reusable : x.isReusable = true) :
    x.mayWrite = false := by
  cases x <;> simp_all [isReusable, mayWrite, effects, Effects.none]

end Instruction

/-- The reusable instruction with an opcode and a list of operands, if there is one. -/
def Opcode.reusable? {ν : Type} : Opcode → List ν → Option (Instruction ν)
  | .binary op, [left, right] => some (.binary op left right)
  | .compare p, [left, right] => some (.compare p left right)
  | .extractElement, [vector, index] => some (.extractElement vector index)
  | .insertElement, [vector, value, index] => some (.insertElement vector value index)
  | .shuffleVector, [left, right, mask] => some (.shuffleVector left right mask)
  | .gep element, base :: indices => some (.gep element base indices)
  | .extractValue path, [aggregate] => some (.extractValue aggregate path)
  | .insertValue path, [aggregate, value] => some (.insertValue aggregate value path)
  | .phi incoming, values => some (.phi (incoming.zip values))
  | .select, [condition, ifTrue, ifFalse] => some (.select condition ifTrue ifFalse)
  | .cast op target, [value] => some (.cast op value target)
  | .load type, [pointer] => some (.load type pointer false)
  | _, _ => none

/-- Whether the opcode is that of a load, the one kind of reusable instruction that reads
memory. -/
def Opcode.isLoad : Opcode → Bool
  | .load _ => true
  | _ => false

namespace Instruction

variable {ν : Type}

/-- A reusable instruction is told by its opcode and its operands. -/
theorem reusable?_opcode_operands {x : Instruction ν} (reusable : x.isReusable = true) :
    x.opcode.reusable? x.operands = some x := by
  cases x with
  | phi incoming => simp [opcode, operands, Opcode.reusable?, List.zip_map']
  | load type pointer isVolatile =>
    cases isVolatile with
    | false => rfl
    | true => cases reusable
  | store type value pointer isVolatile => cases reusable
  | alloca type => cases reusable
  | call callee arguments effects => cases reusable
  | fence => cases reusable
  | branch target => cases reusable
  | condBranch condition ifTrue ifFalse => cases reusable
  | ret value => cases reusable
  | _ => rfl

theorem mayRead_of_isReusable {x : Instruction ν} (reusable : x.isReusable = true) :
    x.mayRead = x.opcode.isLoad := by
  cases x <;> simp_all [isReusable, mayRead, effects, Effects.none, opcode, Opcode.isLoad]

end Instruction

/-! ## Keys -/

/-- The key with `g` applied to each operand. -/
def ExpressionKey.map (g : Value → Value) (key : ExpressionKey) : ExpressionKey :=
  ⟨key.opcode, key.slots.map (Option.map g)⟩

theorem ExpressionKey.map_map (h g : Value → Value) (key : ExpressionKey) :
    (key.map g).map h = key.map (fun v => h (g v)) := by
  simp [map, Function.comp_def]

namespace Instruction

theorem isReusable_of_key? {x : Instruction Value} {key : ExpressionKey}
    (keyed : x.key? = some key) : x.isReusable = true := by
  unfold key? at keyed
  split at keyed
  · assumption
  · cases keyed

theorem opcode_of_key? {x : Instruction Value} {key : ExpressionKey}
    (keyed : x.key? = some key) : key.opcode = x.opcode := by
  rw [key?, if_pos (isReusable_of_key? keyed)] at keyed
  cases keyed
  rfl

/-- The key of a mapped instruction is the mapped key. -/
@[simp]
theorem key?_map (g : Value → Value) (x : Instruction Value) :
    (x.map g).key? = x.key?.map (ExpressionKey.map g) := by
  by_cases reusable : x.isReusable = true
  · simp [key?, reusable, ExpressionKey.map, Vector.map_ofFn, Function.comp_def]
  · simp [key?, reusable]

/-- Whether an instruction reads memory shows in its key. -/
theorem mayRead_of_key? {x : Instruction Value} {key : ExpressionKey}
    (keyed : x.key? = some key) : x.mayRead = key.opcode.isLoad := by
  rw [mayRead_of_isReusable (isReusable_of_key? keyed), opcode_of_key? keyed]

/-- A key is an opcode and the first operands. -/
theorem key?_eq_key?_iff {x y : Instruction Value} (reusable : x.isReusable = true)
    (reusable' : y.isReusable = true) :
    y.key? = x.key? ↔
      y.opcode = x.opcode ∧ y.operands.take keyWidth = x.operands.take keyWidth := by
  rw [key?, key?, if_pos reusable, if_pos reusable', Option.some.injEq, ExpressionKey.mk.injEq]
  refine and_congr_right fun _ => ?_
  constructor
  · intro slots
    apply List.ext_getElem?
    intro i
    by_cases inside : i < keyWidth
    · have slot := congrArg (fun v : Vector (Option Value) keyWidth => v[i]) slots
      simpa [List.getElem?_take, inside] using slot
    · rw [List.getElem?_take_eq_none (by omega), List.getElem?_take_eq_none (by omega)]
  · intro same
    ext i inside : 1
    have slot := congrArg (fun l : List Value => l[i]?) same
    simpa [List.getElem?_take, inside] using slot

/-- Instructions with one key and no operand beyond its slots are the same instruction. -/
theorem eq_of_key?_eq {x y : Instruction Value} {key : ExpressionKey}
    (xKeyed : x.key? = some key) (yKeyed : y.key? = some key)
    (xFits : x.operands.length ≤ keyWidth) (yFits : y.operands.length ≤ keyWidth) : x = y := by
  have xReusable := isReusable_of_key? xKeyed
  have yReusable := isReusable_of_key? yKeyed
  obtain ⟨opcodes, operands⟩ :=
    (key?_eq_key?_iff yReusable xReusable).mp (xKeyed.trans yKeyed.symm)
  rw [List.take_of_length_le xFits, List.take_of_length_le yFits] at operands
  have rebuilt := reusable?_opcode_operands xReusable
  rw [opcodes, operands, reusable?_opcode_operands yReusable] at rebuilt
  exact (Option.some.inj rebuilt).symm

/-- **A key tells an instruction up to its fifth operand.** Keys are equal exactly if the opcodes
and the first five operands are, and an instruction that has no more of them is the only one with
its key. -/
theorem told_by_key {x y : Instruction Value} {xKey yKey : ExpressionKey}
    (xKeyed : x.key? = some xKey) (yKeyed : y.key? = some yKey) :
    (xKey = yKey ↔ x.opcode = y.opcode ∧ x.operands.take 5 = y.operands.take 5) ∧
    (x.operands.length ≤ 5 → y.operands.length ≤ 5 → xKey = yKey → x = y) := by
  constructor
  · have keys := key?_eq_key?_iff (isReusable_of_key? yKeyed) (isReusable_of_key? xKeyed)
    rwa [xKeyed, yKeyed, Option.some.injEq] at keys
  · intro xFits yFits same
    subst same
    exact eq_of_key?_eq xKeyed yKeyed xFits yFits

/-- A gep whose last index is its fifth operand. -/
def narrowGep (last : Int64) : Instruction Value :=
  gep (.int 8) (.argument 0) [.const 1, .const 2, .const 3, .const last]

/-- A gep whose last index is its sixth operand. -/
def wideGep (last : Int64) : Instruction Value :=
  gep (.int 8) (.argument 0) [.const 1, .const 2, .const 3, .const 4, .const last]

/-- The last index tells two geps apart where it is the fifth operand, and does not where it is the
sixth. -/
theorem told_by_key_lastIndex :
    (narrowGep 5).key? ≠ (narrowGep 6).key? ∧ (wideGep 5).key? = (wideGep 6).key? ∧
      wideGep 5 ≠ wideGep 6 := by
  refine ⟨fun same => ?_, ?_, by decide⟩
  · have narrow := told_by_key (x := narrowGep 5) (y := narrowGep 6) rfl rfl
    exact absurd (narrow.2 (by decide) (by decide) (Option.some.inj same)) (by decide)
  · have wide := told_by_key (x := wideGep 5) (y := wideGep 6) rfl rfl
    exact congrArg some (wide.1.mpr ⟨rfl, rfl⟩)

end Instruction

/-! ## Instructions and keys of a function -/

namespace Func

/-- The key of an instruction of the function, if it may be reused. -/
def key? (f : Func) (index : Nat) : Option ExpressionKey :=
  (f.instruction? index).bind Instruction.key?

theorem key?_eq_some {f : Func} {index : Nat} {key : ExpressionKey} :
    f.key? index = some key ↔ ∃ x, f.instruction? index = some x ∧ x.key? = some key := by
  simp [key?, Option.bind_eq_some_iff]

@[simp]
theorem instruction?_mapOperands (f : Func) (g : Value → Value) (index : Nat) :
    (f.mapOperands g).instruction? index = (f.instruction? index).map (Instruction.map g) := by
  simp [instruction?, mapOperands, Function.comp_def]

@[simp]
theorem key?_mapOperands (f : Func) (g : Value → Value) (index : Nat) :
    (f.mapOperands g).key? index = (f.key? index).map (ExpressionKey.map g) := by
  cases found : f.instruction? index <;> simp [key?, found]

theorem mapOperands_mapOperands (f : Func) (g h : Value → Value) :
    (f.mapOperands g).mapOperands h = f.mapOperands (fun v => h (g v)) := by
  simp [mapOperands, Function.comp_def]

/-- Two maps that agree on the operands of a function give the same function. -/
theorem mapOperands_congr {f : Func} {g h : Value → Value}
    (agree : ∀ v ∈ f.operands, g v = h v) : f.mapOperands g = f.mapOperands h := by
  simp only [mapOperands, mk.injEq, true_and, and_true]
  refine List.map_congr_left fun d mem => ?_
  have same : d.instruction.map g = d.instruction.map h := by
    refine Instruction.map_congr fun v vMem => agree v (List.mem_flatMap.mpr ⟨_, ?_, vMem⟩)
    exact List.mem_map_of_mem mem
  rw [same]

theorem mapOperands_id (f : Func) : f.mapOperands (fun v => v) = f := by
  simp [mapOperands]

end Func

/-! ## What a table holds -/

namespace ExpressionTable

@[simp]
theorem mem_retain {t : ExpressionTable} {keep : Entry → Bool} {e : Entry} :
    e ∈ (t.retain keep).entries ↔ e ∈ t.entries ∧ keep e = true := by
  simp [retain]

theorem mem_eraseRepresentative {t : ExpressionTable} {index : Nat} {e : Entry} :
    e ∈ (t.eraseRepresentative index).entries ↔ e ∈ t.entries ∧ e.representative ≠ index := by
  simp [eraseRepresentative]

theorem mem_insert {t : ExpressionTable} {key : ExpressionKey} {index : Nat} {e : Entry} :
    e ∈ (t.insert key index).entries ↔ e = ⟨key, index⟩ ∨ e ∈ t.entries ∧ e.key ≠ key := by
  simp [insert, erase]

/-- A key is found exactly where an entry has it, for no two entries have one key. -/
theorem find?_eq_some {t : ExpressionTable} {key : ExpressionKey} {index : Nat} :
    t.find? key = some index ↔ ⟨key, index⟩ ∈ t.entries := by
  constructor
  · intro found
    obtain ⟨e, matched, rfl⟩ := Option.map_eq_some_iff.mp found
    have same : e.key = key := by simpa using List.find?_some matched
    subst same
    exact List.mem_of_find?_eq_some matched
  · intro mem
    cases found : t.entries.find? (fun e => decide (e.key = key)) with
    | none => simpa using List.find?_eq_none.mp found _ mem
    | some e =>
      have same : e.key = key := by simpa using List.find?_some found
      have unique := List.inj_on_of_nodup_map t.distinct (List.mem_of_find?_eq_some found) mem same
      simp [find?, found, unique]

theorem find?_eq_none {t : ExpressionTable} {key : ExpressionKey} :
    t.find? key = none ↔ ∀ e ∈ t.entries, e.key ≠ key := by
  simp [find?]

end ExpressionTable

end BlockReuse
