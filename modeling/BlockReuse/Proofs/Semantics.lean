import Mathlib.Data.List.Induction
import Mathlib.Logic.Function.Basic
import BlockReuse.Alias.Oracle
import BlockReuse.Proofs.Expressions
import BlockReuse.Proofs.Placement

/-!
# Semantics — what a function does when it runs

An interpretation says what values are, what each kind of instruction does, and where control goes.
It is free but for two laws about memory: an instruction that may not write changes nothing that a
load returns, and a store changes nothing that a load from other bytes returns.

A block runs from its first member to its last. A reusable instruction computes a result; every
other instruction, a branch among them, acts on memory and on the outside world, and when the block
ends the world says which block comes next. A phi reads the results as they were when its block was
entered and knows which block came before, so the phis of a block take effect at once. A result that
was not computed yet is one undefined value.
-/

set_option autoImplicit false

namespace BlockReuse

/-- What comes of an instruction that acts: its result, and memory and world behind it. -/
structure Action (Val Mem World : Type) where
  result : Val
  memory : Mem
  world : World

/-- A reading of the instructions. -/
structure Interpretation (Val Mem World Byte : Type) where
  /-- What is read as the result of an instruction that was not reached yet. -/
  undefined : Val
  argument : Nat → Val
  global : Nat → Val
  const : Int64 → Val
  /-- The result of a reusable instruction that is neither a phi nor a load. -/
  compute : Opcode → List Val → Val
  /-- The result of a phi, told the block that control came from. -/
  choose : Option Nat → List (Nat × Val) → Val
  /-- What a load returns. -/
  fetch : IrType → Val → Mem → Val
  /-- What an instruction that is not reusable does. -/
  act : Instruction Val → Mem → World → Action Val Mem World
  /-- The block that comes next when a block ends. -/
  next : World → Option Nat
  /-- Whether an access of some size at an address touches a byte. -/
  touches : Val → Nat → Byte → Prop
  fetch_act : ∀ x memory world type pointer, x.mayWrite = false →
    fetch type pointer (act x memory world).memory = fetch type pointer memory
  fetch_act_store : ∀ stored value address isVolatile memory world type pointer,
    (∀ byte, touches pointer type.byteSize byte → ¬ touches address stored.byteSize byte) →
    fetch type pointer (act (.store stored value address isVolatile) memory world).memory =
      fetch type pointer memory

/-- The state between two instructions. -/
@[ext]
structure State (Val Mem World : Type) where
  results : Nat → Val
  memory : Mem
  world : World

/-- The state on entry of a block, with the block that control came from. -/
structure Config (Val Mem World : Type) where
  previous : Option Nat
  block : Option Nat
  state : State Val Mem World

namespace Interpretation

variable {Val Mem World Byte : Type} (I : Interpretation Val Mem World Byte)

/-- What an operand stands for. -/
def eval (results : Nat → Val) : Value → Val
  | .inst index => results index
  | .argument index => I.argument index
  | .global index => I.global index
  | .const value => I.const value

/-- What a reusable instruction computes in the state `s`, in a block that was entered in `c`. -/
def value (c : Config Val Mem World) (s : State Val Mem World) : Instruction Value → Val
  | .phi incoming =>
    I.choose c.previous (incoming.map fun (block, v) => (block, I.eval c.state.results v))
  | .load type pointer _ => I.fetch type (I.eval s.results pointer) s.memory
  | x => I.compute x.opcode (x.operands.map (I.eval s.results))

/-- The state behind one member of a block that was entered in `c`. -/
def perform (f : Func) (c : Config Val Mem World) (s : State Val Mem World) (index : Nat) :
    State Val Mem World :=
  match f.instruction? index with
  | none => s
  | some x =>
    if x.isReusable then { s with results := Function.update s.results index (I.value c s x) }
    else
      let action := I.act (x.map (I.eval s.results)) s.memory s.world
      ⟨Function.update s.results index action.result, action.memory, action.world⟩

/-- The state behind the members `done` of a block that was entered in `c`. -/
def reach (f : Func) (c : Config Val Mem World) (done : List Nat) : State Val Mem World :=
  done.foldl (I.perform f c) c.state

/-- One block, if there is one to run. -/
def step (f : Func) (c : Config Val Mem World) : Config Val Mem World :=
  match c.block.bind fun block => f.blocks[block]? with
  | none => c
  | some b =>
    let s := I.reach f c b.members
    ⟨c.block, I.next s.world, s⟩

/-- Before the first block. -/
def start (memory : Mem) (world : World) : Config Val Mem World :=
  ⟨none, some 0, ⟨fun _ => I.undefined, memory, world⟩⟩

/-- A run of a function for a number of blocks. -/
def run (f : Func) (memory : Mem) (world : World) : Nat → Config Val Mem World
  | 0 => I.start memory world
  | n + 1 => I.step f (run f memory world n)

/-- Whether a location has a byte, in the state `s`. -/
def covers (s : State Val Mem World) (l : Location) (byte : Byte) : Prop :=
  I.touches (I.eval s.results l.pointer) l.size byte

end Interpretation

/-- Whenever a run comes to a store that the oracle puts apart from a load earlier in the block, the
two touch no common byte. -/
def Oracle.Sound {Val Mem World Byte : Type} (oracle : Oracle)
    (I : Interpretation Val Mem World Byte) (f : Func) : Prop :=
  ∀ memory world n block b done load store loaded stored,
    (I.run f memory world n).block = some block → f.blocks[block]? = some b →
    done ++ [store] <+: b.members → load ∈ done →
    (f.instruction? load).bind Instruction.loadLocation? = some loaded →
    (f.instruction? store).bind Instruction.storeLocation? = some stored →
    oracle loaded stored = .no →
    ∀ byte, I.covers (I.reach f (I.run f memory world n) done) loaded byte →
      ¬ I.covers (I.reach f (I.run f memory world n) done) stored byte

/-! ## Functions whose operands are in order -/

/-- Whether the instruction is a phi. -/
def Instruction.isPhi {ν : Type} : Instruction ν → Bool
  | phi _ => true
  | _ => false

/-- An operand that names a member of the block names an earlier one, unless it is a phi's. -/
def Func.Ordered (f : Func) : Prop :=
  ∀ b ∈ f.blocks, ∀ index ∈ b.members, ∀ x, f.instruction? index = some x → x.isPhi = false →
    ∀ operand ∈ b.members, .inst operand ∈ x.operands →
      b.members.idxOf operand < b.members.idxOf index

instance (f : Func) : Decidable f.Ordered :=
  inferInstanceAs (Decidable (∀ b ∈ f.blocks, ∀ index ∈ b.members, ∀ x ∈ f.instruction? index,
    x.isPhi = false → ∀ operand ∈ b.members, .inst operand ∈ x.operands →
      b.members.idxOf operand < b.members.idxOf index))

namespace Interpretation

/-! ## One member -/

section Perform

variable {Val Mem World Byte : Type} {I : Interpretation Val Mem World Byte} {f : Func}
  {c : Config Val Mem World} {s : State Val Mem World} {index other : Nat} {x : Instruction Value}

theorem perform_of_isReusable (found : f.instruction? index = some x)
    (reusable : x.isReusable = true) :
    I.perform f c s index =
      { s with results := Function.update s.results index (I.value c s x) } := by
  simp only [perform, found, if_pos reusable]

theorem perform_of_not_isReusable (found : f.instruction? index = some x)
    (acts : x.isReusable = false) :
    I.perform f c s index =
      ⟨Function.update s.results index (I.act (x.map (I.eval s.results)) s.memory s.world).result,
        (I.act (x.map (I.eval s.results)) s.memory s.world).memory,
        (I.act (x.map (I.eval s.results)) s.memory s.world).world⟩ := by
  simp only [perform, found, acts]
  rfl

/-- A member sets no result but its own. -/
theorem results_perform_of_ne (distinct : other ≠ index) :
    (I.perform f c s index).results other = s.results other := by
  unfold perform
  split
  · rfl
  · split
    · exact Function.update_of_ne distinct _ _
    · exact Function.update_of_ne distinct _ _

theorem eval_perform_of_ne {v : Value} (distinct : v ≠ .inst index) :
    I.eval (I.perform f c s index).results v = I.eval s.results v := by
  cases v with
  | inst other => exact results_perform_of_ne fun same => distinct (congrArg _ same)
  | _ => rfl

/-- What a load returns stays the same behind an instruction that may not write. -/
theorem fetch_perform_of_not_mayWrite (found : f.instruction? index = some x)
    (silent : x.mayWrite = false) (type : IrType) (pointer : Val) :
    I.fetch type pointer (I.perform f c s index).memory = I.fetch type pointer s.memory := by
  cases reusable : x.isReusable with
  | true => rw [perform_of_isReusable found reusable]
  | false =>
    rw [perform_of_not_isReusable found reusable]
    exact I.fetch_act _ _ _ _ _ (by rw [Instruction.mayWrite_map, silent])

/-- What an instruction computes does not change with a member that it does not mention, if it is no
load or the member leaves what it loads. -/
theorem value_perform (apart : x.isPhi = false → .inst index ∉ x.operands)
    (kept : ∀ type pointer isVolatile, x = .load type pointer isVolatile →
      I.fetch type (I.eval s.results pointer) (I.perform f c s index).memory =
        I.fetch type (I.eval s.results pointer) s.memory) :
    I.value c (I.perform f c s index) x = I.value c s x := by
  have same : x.isPhi = false → ∀ v ∈ x.operands,
      I.eval (I.perform f c s index).results v = I.eval s.results v := by
    intro notPhi v mem
    refine eval_perform_of_ne ?_
    rintro rfl
    exact apart notPhi mem
  cases x with
  | phi incoming => rfl
  | load type pointer isVolatile =>
    simp only [value]
    rw [same rfl pointer List.mem_cons_self]
    exact kept type pointer isVolatile rfl
  | _ => exact congrArg _ (List.map_congr_left (same rfl))

end Perform

/-! ## One block -/

section Block

variable {Val Mem World Byte : Type} {f : Func} {c : Config Val Mem World}

@[simp]
theorem reach_append_singleton (I : Interpretation Val Mem World Byte) (f : Func)
    (c : Config Val Mem World) (done : List Nat) (index : Nat) :
    I.reach f c (done ++ [index]) = I.perform f c (I.reach f c done) index := by
  simp [reach]

/-- The phis at the head of a block take effect at once: each is set to what it computes from the
state on entry, and nothing else changes. -/
theorem reach_phis (I : Interpretation Val Mem World Byte) {phis : List Nat}
    (arePhis : ∀ index ∈ phis, ∃ incoming, f.instruction? index = some (.phi incoming)) :
    I.reach f c phis =
      { c.state with
        results := fun index =>
          match f.instruction? index with
          | some x => if index ∈ phis then I.value c c.state x else c.state.results index
          | none => c.state.results index } := by
  induction phis using List.reverseRecOn with
  | nil =>
    refine State.ext (funext fun index => ?_) rfl rfl
    simp only [reach, List.foldl_nil, List.not_mem_nil, if_false]
    split <;> rfl
  | append_singleton phis last ih =>
    obtain ⟨incoming, found⟩ := arePhis last (by simp)
    rw [reach_append_singleton, ih fun index mem => arePhis index (List.mem_append_left _ mem),
      perform_of_isReusable found rfl]
    refine State.ext (funext fun index => ?_) rfl rfl
    by_cases same : index = last
    · subst same
      simp [found, value]
    · simp [same]

theorem step_of_none (I : Interpretation Val Mem World Byte)
    (ended : (c.block.bind fun block => f.blocks[block]?) = none) : I.step f c = c := by
  simp only [step, ended]

theorem step_of_some (I : Interpretation Val Mem World Byte) {b : Block}
    (running : (c.block.bind fun block => f.blocks[block]?) = some b) :
    I.step f c = ⟨c.block, I.next (I.reach f c b.members).world, I.reach f c b.members⟩ := by
  simp only [step, running]

end Block

end Interpretation

end BlockReuse
