import BlockReuse.Proofs.CheckedLookups
import BlockReuse.Proofs.RoundTrip

/-!
# Well-formed functions — what holds of every function that was read

A function that was read can be written again, and so can what passes make of it. What can be
written has a name for every operand and every block it refers to, so all of them are there; and the
textual form has no phrase for a phi without arms, a path without steps, an integer of no bits or a
call that only writes. `Func.WellFormed` says so without reference to any text.
-/

set_option autoImplicit false

namespace BlockReuse

open Source

/-! ## Well-formed functions -/

/-- An integer has from 1 to 65535 bits. -/
def IrType.WellSized : IrType → Prop
  | int bits => 1 ≤ bits.toNat ∧ bits.toNat ≤ 65535
  | _ => True

namespace Instruction

variable {ν : Type}

/-- The blocks an instruction refers to: those a phi takes a value from, and those a branch
names. -/
def blockRefs : Instruction ν → List Nat
  | phi incoming => incoming.map Prod.fst
  | x => x.targets

/-- Phis and paths are not empty, integer types have a size, and a call that writes may read. -/
def WellShaped : Instruction ν → Prop
  | phi incoming => incoming ≠ []
  | extractValue _ path => path ≠ []
  | insertValue _ _ path => path ≠ []
  | gep element _ _ => element.WellSized
  | cast _ _ target => target.WellSized
  | load type _ _ => type.WellSized
  | store type _ _ _ => type.WellSized
  | alloca type => type.WellSized
  | call _ _ effects => effects = .none ∨ effects = .read ∨ effects = .readWrite
  | _ => True

end Instruction

namespace Func

/-- The function has what a value names. A result is that of an instruction that produces a value
and was given a name. -/
def Has (f : Func) : Value → Prop
  | .inst index =>
    index < f.instructions.length ∧
      ∃ x name, f.instruction? index = some x ∧ x.producesValue = true ∧
        f.resultName? index = some name
  | .argument index => index < f.arguments.length
  | .global index => index < f.globals.length
  | .const _ => True

/-- Names and places are consistent, and all that is referred to is there. -/
structure WellFormed (f : Func) : Prop where
  names : f.names.length = f.instructions.length
  inOrder : f.blocks.flatMap Block.members = List.range f.instructions.length
  distinctLabels : (f.blocks.map Block.label).Nodup
  distinctNames : (f.arguments ++ f.names.reduceOption).Nodup
  named : ∀ index x, f.instruction? index = some x → x.producesValue = true → x.isCall = false →
    (f.resultName? index).isSome = true
  unnamed : ∀ index x, f.instruction? index = some x → x.producesValue = false →
    f.resultName? index = none
  operands : ∀ x ∈ f.instructions, ∀ v ∈ x.operands, f.Has v
  blockRefs : ∀ x ∈ f.instructions, ∀ block ∈ x.blockRefs, block < f.blocks.length
  shapes : ∀ x ∈ f.instructions, x.WellShaped

/-! ## What can be written is well formed -/

variable {f : Func}

theorem wellSized_of_possible {type : IrType} (possible : Phrase.Possible (Phrase.typeName type)) :
    type.WellSized := by
  obtain ⟨t, -, spelled⟩ := Phrase.possible_single.mp possible
  cases type with
  | int bits =>
    obtain ⟨digits, -, -, positive⟩ := spelled
    exact ⟨positive, Nat.le_of_lt_succ bits.toNat_lt⟩
  | f32 => trivial
  | f64 => trivial
  | ptr => trivial

/-- A path that can be written has a step. -/
theorem ne_nil_of_possible {path : List UInt32} (possible : Phrase.Possible (Phrase.path path)) :
    path ≠ [] := by
  intro empty
  rw [empty] at possible
  exact Phrase.possible_zero possible

/-- An instruction that can be written is well shaped. -/
theorem wellShaped_of_possible {ν : Type} {spells : ν → Token → Prop} {labels : List String}
    {x : Instruction ν} (possible : Phrase.Possible (Phrase.tail spells labels x)) :
    x.WellShaped := by
  cases x with
  | phi incoming =>
    intro empty
    rw [empty] at possible
    exact Phrase.possible_zero possible
  | extractValue aggregate path => exact ne_nil_of_possible (Phrase.possible_mul.mp possible).2
  | insertValue aggregate value path => exact ne_nil_of_possible (Phrase.possible_mul.mp possible).2
  | gep element base indices => exact wellSized_of_possible (Phrase.possible_mul.mp possible).1
  | cast op value target => exact wellSized_of_possible (Phrase.possible_mul.mp possible).2
  | load type pointer isVolatile =>
    simp only [Phrase.tail, Phrase.possible_mul] at possible
    exact wellSized_of_possible possible.1.1.2
  | store type value pointer isVolatile =>
    simp only [Phrase.tail, Phrase.possible_mul] at possible
    exact wellSized_of_possible possible.1.2
  | alloca type => exact wellSized_of_possible possible
  | call callee arguments effects =>
    simp only [Phrase.tail, Phrase.possible_mul] at possible
    have declared := possible.1.1.1.1
    obtain ⟨reads, writes⟩ := effects
    cases reads with
    | true =>
      cases writes with
      | true => exact .inr (.inr rfl)
      | false => exact .inr (.inl rfl)
    | false =>
      cases writes with
      | true => exact absurd declared Phrase.possible_zero
      | false => exact .inl rfl
  | _ => trivial

/-- A block that can be named is there. -/
theorem lt_of_possible {labels : List String} {block : Nat}
    (possible : Phrase.Possible (Phrase.blockRef labels block)) : block < labels.length := by
  obtain ⟨t, -, found⟩ := Phrase.possible_single.mp possible
  exact (List.getElem?_eq_some_iff.mp found).1

/-- An instruction that can be written refers to blocks that are there. -/
theorem blockRefs_of_possible {ν : Type} {spells : ν → Token → Prop} {labels : List String}
    {x : Instruction ν} (possible : Phrase.Possible (Phrase.tail spells labels x)) :
    ∀ block ∈ x.blockRefs, block < labels.length := by
  intro block mem
  cases x with
  | phi incoming =>
    obtain ⟨arm, isArm, rfl⟩ := List.mem_map.mp mem
    cases incoming with
    | nil => cases isArm
    | cons first more =>
      rw [Phrase.tail, Phrase.possible_listed] at possible
      have written := possible _ (List.mem_map_of_mem isArm)
      simp only [Phrase.incoming, Phrase.possible_mul] at written
      exact lt_of_possible written.1.1.1.2
  | branch target =>
    obtain rfl := List.mem_singleton.mp mem
    exact lt_of_possible possible
  | condBranch condition ifTrue ifFalse =>
    rw [Phrase.tail, Phrase.possible_listed] at possible
    rcases List.mem_cons.mp mem with rfl | mem
    · exact lt_of_possible (possible _ (by simp))
    · obtain rfl := List.mem_singleton.mp mem
      exact lt_of_possible (possible _ (by simp))
  | _ => cases mem

/-- What some token spells is there. -/
theorem Writable.has_of_spells (writable : f.Writable) {v : Value} {t : Token}
    (spelled : f.Spells v t) : f.Has v := by
  cases v with
  | inst index =>
    obtain ⟨-, named⟩ := spelled
    obtain ⟨d, found, name⟩ := Option.bind_eq_some_iff.mp named
    have bound := (List.getElem?_eq_some_iff.mp found).1
    refine ⟨by simpa [instructions] using bound, d.instruction, t.text, ?_, ?_, named⟩
    · rw [instruction?, found, Option.map_some]
    · -- what produces no value has no name
      by_contra silent
      have unnamed := (writable.wellNamed d (List.mem_of_getElem? found)).unnamed
        (by simpa [Definition.line] using silent)
      rw [Definition.line, name] at unnamed
      cases unnamed
  | argument index => exact (List.getElem?_eq_some_iff.mp spelled.2).1
  | global index => exact (List.getElem?_eq_some_iff.mp spelled.2).1
  | const value => trivial

theorem Writable.wellFormed (writable : f.Writable) : f.WellFormed where
  names := by rw [Func.names, instructions, List.length_map, List.length_map]
  inOrder := by rw [writable.inOrder, instructions, List.length_map]
  distinctLabels := writable.distinctLabels
  distinctNames := writable.distinctNames
  named index x found produces isCall := by
    obtain ⟨d, isDefinition, rfl⟩ := Option.map_eq_some_iff.mp found
    rw [resultName?, isDefinition]
    exact (writable.wellNamed d (List.mem_of_getElem? isDefinition)).named produces isCall
  unnamed index x found silent := by
    obtain ⟨d, isDefinition, rfl⟩ := Option.map_eq_some_iff.mp found
    rw [resultName?, isDefinition]
    exact (writable.wellNamed d (List.mem_of_getElem? isDefinition)).unnamed silent
  operands x mem v isOperand := by
    obtain ⟨d, isDefinition, rfl⟩ := List.mem_map.mp mem
    obtain ⟨t, spelled⟩ :=
      (Phrase.possible_tail.mp (writable.possible d isDefinition)).2 v isOperand
    exact writable.has_of_spells spelled
  blockRefs x mem block isRef := by
    obtain ⟨d, isDefinition, rfl⟩ := List.mem_map.mp mem
    have inside := blockRefs_of_possible (writable.possible d isDefinition) block isRef
    simpa [labels] using inside
  shapes x mem := by
    obtain ⟨d, isDefinition, rfl⟩ := List.mem_map.mp mem
    exact wellShaped_of_possible (writable.possible d isDefinition)

/-- No operand of a well-formed function is the result of an instruction it does not have. -/
theorem WellFormed.useCount_of_length_le (wellFormed : f.WellFormed) {index : Nat}
    (outside : f.instructions.length ≤ index) : f.useCount index = 0 := by
  refine List.count_eq_zero.mpr fun mem => ?_
  obtain ⟨x, isInstruction, isOperand⟩ := List.mem_flatMap.mp mem
  obtain ⟨inside, -⟩ := wellFormed.operands x isInstruction _ isOperand
  omega

end Func

/-! ## What was read -/

/-- A function that was read is well formed, and so is what any passes make of it. A pass over it
and its text ask for nothing that it does not have, and no use of such a thing is counted. -/
theorem wellFormed_of_parse {source : String} {fs : List Func} (parsed : parse source = .ok fs)
    {f g : Func} (mem : f ∈ fs) (reused : ReusesTo f g) :
    g.WellFormed ∧ (∀ oracle, reuse? oracle g = some (reuse oracle g)) ∧ g.text? = some g.text ∧
      ∀ index, g.instructions.length ≤ index → g.useCount index = 0 := by
  have wellFormed := (writable_of_reusesTo (writable_of_parse parsed f mem) reused).wellFormed
  exact ⟨wellFormed, fun oracle => reuse?_eq oracle g, g.text?_eq,
    fun index outside => wellFormed.useCount_of_length_le outside⟩

/-- A loop over two blocks. The phi in front takes a result that is defined further down, the call
has no name, and two results are read off one aggregate by the same path. -/
def twoBlockLoop : Func where
  name := "f"
  arguments := ["x"]
  globals := ["g"]
  definitions :=
    [⟨.phi [(1, .inst 5), (0, .argument 0)], some "p"⟩,
      ⟨.call (.global 0) [.inst 0] .read, none⟩,
      ⟨.extractValue (.inst 0) [0], some "v"⟩, ⟨.extractValue (.inst 0) [0], some "w"⟩,
      ⟨.condBranch (.inst 3) 0 1, none⟩, ⟨.load (.int 7) (.inst 2) false, some "m"⟩,
      ⟨.branch 0, none⟩]
  blocks := [⟨"a", [0, 1, 2, 3, 4]⟩, ⟨"b", [5, 6]⟩]
  placed := by decide

/-- The text of `twoBlockLoop`. -/
def twoBlockLoopText : String :=
  "fn @f(%x) \x7b a: %p = phi [b, %m], [a, %x] call readonly @g(%p) " ++
  "%v = extractvalue %p, 0 %w = extractvalue %p, 0 br %w, a, b b: %m = load i7, %v br a \x7d"

/-- A pass over `twoBlockLoop` changes it, and what it makes of it is well formed. -/
theorem wellFormed_twoBlockLoop :
    parse twoBlockLoopText = .ok [twoBlockLoop] ∧
      (reuse .conservative twoBlockLoop).func ≠ twoBlockLoop ∧
      (reuse .conservative twoBlockLoop).func.WellFormed ∧
      (∀ oracle, reuse? oracle (reuse .conservative twoBlockLoop).func =
        some (reuse oracle (reuse .conservative twoBlockLoop).func)) ∧
      (reuse .conservative twoBlockLoop).func.text? =
        some (reuse .conservative twoBlockLoop).func.text ∧
      ∀ index, (reuse .conservative twoBlockLoop).func.instructions.length ≤ index →
        (reuse .conservative twoBlockLoop).func.useCount index = 0 := by
  have parsed : parse twoBlockLoopText = .ok [twoBlockLoop] := by
    apply eq_ok_of_toOption
    decide +kernel
  have reused : ReusesTo twoBlockLoop (reuse .conservative twoBlockLoop).func :=
    .single ⟨.conservative, rfl⟩
  have changed : (reuse .conservative twoBlockLoop).func ≠ twoBlockLoop := by decide +kernel
  exact ⟨parsed, changed, wellFormed_of_parse parsed (List.mem_singleton_self _) reused⟩

end BlockReuse
