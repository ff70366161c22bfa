import Mathlib.Algebra.Ring.Int.Defs
import Mathlib.Data.Set.Disjoint
import Mathlib.Data.Set.Lattice
import Mathlib.Order.CompletePartialOrder
import BlockReuse.Alias.Basic

/-!
# Addressing — the basic oracle answers truly about where pointers point

What a pointer points at is an object and a distance in bytes from its start. An addressing gives
these for every value, with distances that are exact integers, and knows only three laws: a constant
index is its number, a gep is its base shifted by index times element size, and a global or what an
`alloca` reserves is an object of its own (`Addressing.Lawful`).

The origin of a pointer is found with words, gives up on an index that is no constant, on a sum that
is no word, and on a chain that never ends. It is still true in every lawful addressing: a pointer
is in the object of its origin's base, and, where an offset is known, exactly that far from it
(`traces_origin`). One step along a chain keeps this, so every number of steps does, and a chain
that is cut off claims nothing beyond the pointer itself.
-/

set_option autoImplicit false

universe u

namespace BlockReuse

/-! ## Where values point -/

/-- A place in memory: an object, and the distance in bytes from its start. -/
@[ext]
structure Address (Object : Type u) where
  object : Object
  offset : Int

/-- The place some bytes further in the same object. -/
def Address.shift {Object : Type u} (p : Address Object) (bytes : Int) : Address Object :=
  ⟨p.object, p.offset + bytes⟩

/-- The place every value points at, and the number it is when it is an index. -/
structure Addressing (Object : Type u) where
  address : Value → Address Object
  index : Value → Int

/-- The values that name an object of their own. -/
inductive Func.Reserves (f : Func) : Value → Prop
  | global (index : Nat) : f.Reserves (.global index)
  | alloca {index : Nat} {type : IrType} :
    f.instruction? index = some (.alloca type) → f.Reserves (.inst index)

theorem Func.reserves_of_isObject {f : Func} {v : Value} (object : f.isObject v = true) :
    f.Reserves v := by
  cases v with
  | global index => exact .global index
  | inst index =>
    simp only [isObject] at object
    split at object
    · next found => exact .alloca found
    · cases object
  | argument index => cases object
  | const value => cases object

namespace Addressing

variable {Object : Type u}

/-- What an addressing has to know about a function. -/
structure Lawful (A : Addressing Object) (f : Func) : Prop where
  /-- A constant is its number. -/
  const : ∀ c, A.index (.const c) = c.toInt
  /-- A gep is its base, shifted by the sum of index times element size. -/
  gep : ∀ i element base indices, f.instruction? i = some (.gep element base indices) →
    A.address (.inst i) =
      (A.address base).shift (indices.map fun v => A.index v * element.byteSize).sum
  /-- An object starts at its first byte. -/
  start : ∀ v, f.Reserves v → (A.address v).offset = 0
  /-- Objects of different names are different. -/
  apart : ∀ v w, f.Reserves v → f.Reserves w → (A.address v).object = (A.address w).object → v = w

/-- The bytes of a location. -/
def bytes (A : Addressing Object) (l : Location) : Set (Address Object) :=
  {p | p.object = (A.address l.pointer).object ∧ (A.address l.pointer).offset ≤ p.offset ∧
    p.offset < (A.address l.pointer).offset + l.size}

/-- The origin of a pointer tells the truth: it is in the same object, and at the known distance. -/
structure Traces (A : Addressing Object) (pointer : Value) (origin : Origin) : Prop where
  object : (A.address pointer).object = (A.address origin.base).object
  offset : ∀ n, origin.offset = some n →
    (A.address pointer).offset = (A.address origin.base).offset + n

variable {A : Addressing Object} {f : Func}

/-! ## Shifts -/

/-- The shift of a gep, where it is known, is the exact sum, whatever words it went through. -/
theorem Lawful.gepShift?_eq (lawful : A.Lawful f) {element : IrType} {indices : List Value}
    {n : Int} (known : gepShift? element indices = some n) :
    (indices.map fun v => A.index v * element.byteSize).sum = n := by
  rw [gepShift?] at known
  rw [← Int.zero_add (List.sum _)]
  -- The sum may start anywhere.
  generalize (0 : Int) = sum at known ⊢
  induction indices generalizing sum with
  | nil => simpa using known
  | cons v indices ih =>
    rw [List.foldlM_cons] at known
    obtain ⟨next, step, rest⟩ := Option.bind_eq_some_iff.mp known
    cases v with
    | const c =>
      obtain ⟨product, multiplied, added⟩ := Option.bind_eq_some_iff.mp step
      obtain ⟨-, rfl⟩ := Word.checked_eq_some.mp multiplied
      obtain ⟨-, rfl⟩ := Word.checked_eq_some.mp added
      rw [List.map_cons, List.sum_cons, lawful.const, ← Int.add_assoc]
      exact ih _ rest
    | inst index => cases step
    | argument index => cases step
    | global index => cases step

/-! ## Origins -/

theorem traces_self (A : Addressing Object) (pointer : Value) :
    A.Traces pointer ⟨pointer, some 0⟩ where
  object := rfl
  offset := by
    rintro n ⟨⟩
    exact (Int.add_zero _).symm

/-- One gep further. -/
theorem Lawful.traces_step (lawful : A.Lawful f) {pointer base : Value} {origin : Origin}
    {shift : Option Int} (traces : A.Traces pointer origin)
    (step : f.gepStep? origin.base = some (base, shift)) :
    A.Traces pointer ⟨base, origin.offset.bind fun a => shift.bind fun b => Word.add? a b⟩ := by
  unfold Func.gepStep? at step
  split at step
  · next element base indices found =>
    cases step
    obtain ⟨i, named, found⟩ := Option.bind_eq_some_iff.mp found
    have inst : origin.base = .inst i := by
      cases h : origin.base <;> simp_all [Value.inst?]
    have shifted := lawful.gep i element base indices found
    rw [← inst] at shifted
    refine ⟨by rw [traces.object, shifted]; rfl, fun n known => ?_⟩
    obtain ⟨a, aKnown, known⟩ := Option.bind_eq_some_iff.mp known
    obtain ⟨b, bKnown, added⟩ := Option.bind_eq_some_iff.mp known
    obtain ⟨-, rfl⟩ := Word.checked_eq_some.mp added
    rw [traces.offset a aKnown, shifted, lawful.gepShift?_eq bKnown]
    simp only [Address.shift]
    omega
  · cases step

/-- Any number of geps further. -/
theorem Lawful.traces_follow (lawful : A.Lawful f) {pointer : Value} {limit : Nat}
    {origin last : Origin} (traces : A.Traces pointer origin)
    (followed : f.follow limit origin = some last) : A.Traces pointer last := by
  induction limit generalizing origin with
  | zero => cases followed
  | succ limit ih =>
    rw [Func.follow] at followed
    split at followed
    · cases followed
      exact traces
    · next base shift step => exact ih (lawful.traces_step traces step) followed

/-- The origin of a pointer is true, also where its chain of geps is cut off. -/
theorem Lawful.traces_origin (lawful : A.Lawful f) (pointer : Value) :
    A.Traces pointer (f.origin pointer) := by
  unfold Func.origin
  cases followed : f.follow (f.gepCount + 1) ⟨pointer, some 0⟩ with
  | none => exact ⟨rfl, fun n known => by cases known⟩
  | some last => exact lawful.traces_follow (traces_self A pointer) followed

/-! ## Answers -/

/-- Locations in different objects share no byte. -/
theorem disjoint_bytes_of_object_ne {a b : Location}
    (distinct : (A.address a.pointer).object ≠ (A.address b.pointer).object) :
    Disjoint (A.bytes a) (A.bytes b) := by
  rw [Set.disjoint_left]
  rintro p ⟨inA, -⟩ ⟨inB, -⟩
  exact distinct (inA.symm.trans inB)

/-- Locations of which one ends before the other starts share no byte. -/
theorem disjoint_bytes_of_le {a b : Location}
    (ends : (A.address a.pointer).offset + a.size ≤ (A.address b.pointer).offset ∨
      (A.address b.pointer).offset + b.size ≤ (A.address a.pointer).offset) :
    Disjoint (A.bytes a) (A.bytes b) := by
  rw [Set.disjoint_left]
  rintro p ⟨-, aFirst, aLast⟩ ⟨-, bFirst, bLast⟩
  omega

end Addressing

namespace Oracle

theorem compareRanges_comm (x : Int) (xSize : Nat) (y : Int) (ySize : Nat) :
    compareRanges x xSize y ySize = compareRanges y ySize x xSize := by
  simp only [compareRanges, eq_comm (a := x), eq_comm (a := xSize), or_comm (a := x + xSize ≤ y)]

theorem basic_comm (f : Func) (a b : Location) : basic f a b = basic f b a := by
  simp only [basic, eq_comm (a := a), eq_comm (a := (f.origin a.pointer).base),
    Bool.and_comm (f.isObject (f.origin a.pointer).base)]
  cases (f.origin a.pointer).offset with
  | none => cases (f.origin b.pointer).offset <;> rfl
  | some x =>
    cases (f.origin b.pointer).offset with
    | none => rfl
    | some y => simp only [compareRanges_comm x]

/-- What the oracle goes by, when it answers other than that nothing is known. -/
theorem basic_cases {f : Func} {a b : Location} {answer : AliasResult}
    (asked : basic f a b = answer) (known : answer ≠ .may) :
    (a = b ∧ answer = .must) ∨
    (∃ x y, (f.origin a.pointer).base = (f.origin b.pointer).base ∧
      (f.origin a.pointer).offset = some x ∧ (f.origin b.pointer).offset = some y ∧
      compareRanges x a.size y b.size = answer) ∨
    ((f.origin a.pointer).base ≠ (f.origin b.pointer).base ∧
      f.isObject (f.origin a.pointer).base = true ∧ f.isObject (f.origin b.pointer).base = true ∧
      answer = .no) := by
  unfold basic at asked
  simp only at asked
  split at asked
  · next same => exact .inl ⟨same, asked.symm⟩
  · split at asked
    · next same =>
      split at asked
      · next x y xKnown yKnown => exact .inr (.inl ⟨x, y, same, xKnown, yKnown, asked⟩)
      · exact absurd asked.symm known
    · next distinct =>
      split at asked
      · next objects =>
        obtain ⟨aObject, bObject⟩ := Bool.and_eq_true_iff.mp objects
        exact .inr (.inr ⟨distinct, aObject, bObject, asked.symm⟩)
      · exact absurd asked.symm known

/-- In every lawful addressing: locations the basic oracle keeps apart share no byte, locations it
calls the same are at one address and have one size, and the order of the question does not
matter. -/
theorem basic_sound {Object : Type u} {A : Addressing Object} {f : Func} (lawful : A.Lawful f)
    (a b : Location) :
    (basic f a b = .no → Disjoint (A.bytes a) (A.bytes b)) ∧
    (basic f a b = .must → A.address a.pointer = A.address b.pointer ∧ a.size = b.size) ∧
    basic f b a = basic f a b := by
  have aTraces := lawful.traces_origin a.pointer
  have bTraces := lawful.traces_origin b.pointer
  refine ⟨fun no => ?_, fun must => ?_, basic_comm f b a⟩
  · rcases basic_cases no (by decide) with ⟨-, wrong⟩ | ⟨x, y, same, xKnown, yKnown, compared⟩ |
      ⟨distinct, aObject, bObject, -⟩
    · cases wrong
    · apply Addressing.disjoint_bytes_of_le
      have aOffset := aTraces.offset x xKnown
      have bOffset := bTraces.offset y yKnown
      rw [← same] at bOffset
      unfold compareRanges at compared
      split at compared
      · cases compared
      · split at compared
        · omega
        · cases compared
    · apply Addressing.disjoint_bytes_of_object_ne
      intro sameObject
      rw [aTraces.object, bTraces.object] at sameObject
      exact distinct (lawful.apart _ _ (Func.reserves_of_isObject aObject)
        (Func.reserves_of_isObject bObject) sameObject)
  · rcases basic_cases must (by decide) with ⟨rfl, -⟩ | ⟨x, y, same, xKnown, yKnown, compared⟩ |
      ⟨-, -, -, wrong⟩
    · exact ⟨rfl, rfl⟩
    · unfold compareRanges at compared
      split at compared
      · next equal =>
        refine ⟨Address.ext ?_ ?_, equal.2⟩
        · rw [aTraces.object, bTraces.object, same]
        · rw [aTraces.offset x xKnown, bTraces.offset y yKnown, same, equal.1]
      · split at compared <;> cases compared
    · cases wrong

/-- An object, a chain of two geps into it, and a gep that is its own base. -/
def gepChain : Func where
  name := "f"
  arguments := ["n"]
  globals := ["g"]
  definitions :=
    [⟨.alloca (.int 64), some "a"⟩, ⟨.gep (.int 32) (.inst 0) [.const 1], some "p"⟩,
      ⟨.gep (.int 8) (.inst 1) [.const (-2), .const 4], some "q"⟩,
      ⟨.gep (.int 8) (.inst 3) [.argument 0], some "c"⟩]
  blocks := [⟨"entry", [0, 1, 2, 3]⟩]
  placed := by decide

/-- The geps of the chain four and six bytes into the object, and every other value at the start of
an object of its own. -/
def gepChainAddressing : Addressing Value where
  address
    | .inst 1 => ⟨.inst 0, 4⟩
    | .inst 2 => ⟨.inst 0, 6⟩
    | v => ⟨v, 0⟩
  index
    | .const c => c.toInt
    | _ => 0

theorem address_of_reserves {v : Value} (reserved : gepChain.Reserves v) :
    gepChainAddressing.address v = ⟨v, 0⟩ := by
  cases reserved with
  | global index => rfl
  | @alloca index type found =>
    match index with
    | 0 => rfl
    | 1 => cases found
    | 2 => cases found
    | 3 => cases found
    | index + 4 => cases found

theorem lawful_gepChainAddressing : gepChainAddressing.Lawful gepChain where
  const c := rfl
  gep i element base indices found := by
    match i with
    | 0 => cases found
    | 1 => cases found; rfl
    | 2 => cases found; rfl
    | 3 => cases found; rfl
    | i + 4 => cases found
  start v reserved := by rw [address_of_reserves reserved]
  apart v w vReserved wReserved same := by
    rwa [address_of_reserves vReserved, address_of_reserves wReserved] at same

/-- Six bytes of the object end where the chain points, and nothing is said of the cycle. -/
theorem basic_sound_gepChain :
    gepChainAddressing.Lawful gepChain ∧
    basic gepChain ⟨.inst 0, 6⟩ ⟨.inst 2, 2⟩ = .no ∧
    basic gepChain ⟨.inst 3, 1⟩ ⟨.inst 0, 1⟩ = .may ∧
    Disjoint (gepChainAddressing.bytes ⟨.inst 0, 6⟩) (gepChainAddressing.bytes ⟨.inst 2, 2⟩) :=
  ⟨lawful_gepChainAddressing, by decide, by decide,
    (basic_sound lawful_gepChainAddressing _ _).1 (by decide)⟩

end Oracle

end BlockReuse
