import BlockReuse.Ir.Instruction

/-!
# Functions — blocks of instructions over one list of definitions

A function holds its instructions in one list, and an instruction is named by its place in that
list. A block is a label and the places of its members, in order. That every instruction stands in
exactly one block is part of the type (`Func.placed`): adding a block or an instruction keeps it,
and every other operation changes no block.

Operations that name a block or an instruction which may not exist return an `Option`.
-/

set_option autoImplicit false

namespace BlockReuse

/-- A label and the instructions under it, named by index, in order. -/
structure Block where
  label : String
  members : List Nat
  deriving DecidableEq, Repr

/-- An instruction and the name its result was given, if it was given one. -/
structure Definition where
  instruction : Instruction Value
  name : Option String
  deriving DecidableEq, Repr

/-- A function. -/
structure Func where
  name : String
  arguments : List String
  globals : List String
  definitions : List Definition
  blocks : List Block
  /-- Every instruction stands in exactly one block, once. -/
  placed : (blocks.flatMap Block.members).Perm (List.range definitions.length)
  deriving DecidableEq, Repr

namespace Func

/-- A function without blocks. -/
def empty (name : String) (arguments : List String) : Func where
  name := name
  arguments := arguments
  globals := []
  definitions := []
  blocks := []
  placed := .nil

/-! ## Reading -/

/-- The instructions, in the order of their indices. -/
def instructions (f : Func) : List (Instruction Value) := f.definitions.map Definition.instruction

/-- The result names, in the order of the instructions they belong to. -/
def names (f : Func) : List (Option String) := f.definitions.map Definition.name

/-- The instruction with an index. -/
def instruction? (f : Func) (index : Nat) : Option (Instruction Value) :=
  f.definitions[index]?.map Definition.instruction

/-- The name an instruction's result was given. -/
def resultName? (f : Func) (index : Nat) : Option String :=
  f.definitions[index]?.bind Definition.name

theorem instruction?_eq_getElem? (f : Func) (index : Nat) :
    f.instruction? index = f.instructions[index]? := by
  simp [instruction?, instructions]

theorem resultName?_eq_join (f : Func) (index : Nat) :
    f.resultName? index = f.names[index]?.join := by
  cases h : f.definitions[index]? <;> simp [resultName?, names, h]

/-- The label of a block. -/
def label? (f : Func) (block : Nat) : Option String :=
  f.blocks[block]?.map Block.label

/-! ## Building -/

/-- The value of the global called `name`, which is added behind the others if it is not among
them yet. -/
def internGlobal (f : Func) (name : String) : Value × Func :=
  (.global (f.globals.idxOf name),
    if name ∈ f.globals then f else { f with globals := f.globals ++ [name] })

/-- Adds an empty block, whose index is the number of blocks so far. -/
def addBlock (f : Func) (label : String) : Func :=
  { f with
    blocks := f.blocks ++ [⟨label, []⟩]
    placed := by simpa using f.placed }

/-- The blocks with `index` put at the end of block `block`. -/
def place (index : Nat) : Nat → List Block → List Block
  | _, [] => []
  | 0, b :: rest => { b with members := b.members ++ [index] } :: rest
  | block + 1, b :: rest => b :: place index block rest

theorem place_members (index : Nat) :
    ∀ (block : Nat) (blocks : List Block), block < blocks.length →
      ((place index block blocks).flatMap Block.members).Perm
        (blocks.flatMap Block.members ++ [index])
  | _, [], h => absurd h (Nat.not_lt_zero _)
  | 0, b :: rest, _ => by
    simp only [place, List.flatMap_cons, List.append_assoc]
    exact List.perm_append_comm.append_left b.members
  | block + 1, b :: rest, h => by
    simpa [place] using (place_members index block rest (Nat.lt_of_succ_lt_succ h)).append_left
      b.members

/-- Adds an instruction without a name at the end of a block. Its index is the number of
instructions so far. There is no answer when the block does not exist. -/
def addInstruction? (f : Func) (block : Nat) (x : Instruction Value) : Option Func :=
  if h : block < f.blocks.length then
    some { f with
      definitions := f.definitions ++ [⟨x, none⟩]
      blocks := place f.definitions.length block f.blocks
      placed := by
        simpa [List.range_succ] using
          (place_members f.definitions.length block f.blocks h).trans (f.placed.append_right _) }
  else none

/-- The function with one definition changed and every block as it was. -/
def modifyDefinition? (f : Func) (index : Nat) (change : Definition → Definition) : Option Func :=
  if index < f.definitions.length then
    some { f with
      definitions := f.definitions.modify index change
      placed := by simpa using f.placed }
  else none

/-- Names the result of an instruction. -/
def setName? (f : Func) (index : Nat) (name : String) : Option Func :=
  f.modifyDefinition? index fun d => { d with name := some name }

/-! ## Changing every operand -/

/-- The function with `g` applied to every operand of every instruction. -/
def mapOperands (f : Func) (g : Value → Value) : Func :=
  { f with
    definitions := f.definitions.map fun d => { d with instruction := d.instruction.map g }
    placed := by simpa using f.placed }

@[simp]
theorem instructions_mapOperands (f : Func) (g : Value → Value) :
    (f.mapOperands g).instructions = f.instructions.map (·.map g) := by
  simp [mapOperands, instructions]

@[simp]
theorem names_mapOperands (f : Func) (g : Value → Value) : (f.mapOperands g).names = f.names := by
  simp [mapOperands, names]

@[simp]
theorem blocks_mapOperands (f : Func) (g : Value → Value) :
    (f.mapOperands g).blocks = f.blocks := rfl

@[simp]
theorem length_instructions_mapOperands (f : Func) (g : Value → Value) :
    (f.mapOperands g).instructions.length = f.instructions.length := by
  simp

end Func

end BlockReuse
