import BlockReuse.Ir.Memory
import BlockReuse.Ir.Operator

/-!
# Instructions — the kinds, their operands, and the facts the pass asks about them

`Instruction ν` is an instruction whose operands are of type `ν`. In a function they are values;
while a function is being read they are the names and literals that were written. The two readings
share every definition that does not look into an operand.

An instruction is taken apart in two ways that together lose nothing for the kinds the pass
merges: `opcode` is the kind with every attribute that decides the result and is no operand, and
`operands` lists the operands in one fixed order. `map` changes operands in place, and
`operands_map`, `opcode_map` say that it does so position by position and touches nothing else.

Three orders of the operands occur. `operands` is the one that keys and counts use. `written` is
the order of the text, where a callee stands before its arguments. `visited` is the order in which
a relocation looks at them, where a store's address comes before the value stored.
-/

set_option autoImplicit false

namespace BlockReuse

/-- One instruction. Blocks are named by their index in the function. -/
inductive Instruction (ν : Type) where
  | binary (op : BinaryOp) (left right : ν)
  | compare (predicate : Predicate) (left right : ν)
  | extractElement (vector index : ν)
  | insertElement (vector value index : ν)
  | shuffleVector (left right mask : ν)
  | gep (element : IrType) (base : ν) (indices : List ν)
  | extractValue (aggregate : ν) (path : List UInt32)
  | insertValue (aggregate value : ν) (path : List UInt32)
  | phi (incoming : List (Nat × ν))
  | select (condition ifTrue ifFalse : ν)
  | cast (op : CastOp) (value : ν) (target : IrType)
  | load (type : IrType) (pointer : ν) (isVolatile : Bool)
  | store (type : IrType) (value pointer : ν) (isVolatile : Bool)
  | alloca (type : IrType)
  | call (callee : ν) (arguments : List ν) (effects : Effects)
  | fence
  | branch (target : Nat)
  | condBranch (condition : ν) (ifTrue ifFalse : Nat)
  | ret (value : Option ν)
  deriving DecidableEq, Repr

/-- The kind of an instruction together with every attribute, other than its operands, that takes
part in the value it computes. -/
inductive Opcode where
  | binary (op : BinaryOp)
  | compare (predicate : Predicate)
  | extractElement
  | insertElement
  | shuffleVector
  | gep (element : IrType)
  | extractValue (path : List UInt32)
  | insertValue (path : List UInt32)
  | phi (incoming : List Nat)
  | select
  | cast (op : CastOp) (target : IrType)
  | load (type : IrType)
  | store (type : IrType)
  | alloca (type : IrType)
  | call
  | fence
  | branch
  | condBranch
  | ret
  deriving DecidableEq, Repr

namespace Instruction

variable {ν μ : Type}

/-! ## Taking an instruction apart -/

/-- The kind and the attributes of an instruction. -/
def opcode : Instruction ν → Opcode
  | binary op _ _ => .binary op
  | compare p _ _ => .compare p
  | extractElement _ _ => .extractElement
  | insertElement _ _ _ => .insertElement
  | shuffleVector _ _ _ => .shuffleVector
  | gep element _ _ => .gep element
  | extractValue _ path => .extractValue path
  | insertValue _ _ path => .insertValue path
  | phi incoming => .phi (incoming.map Prod.fst)
  | select _ _ _ => .select
  | cast op _ target => .cast op target
  | load type _ _ => .load type
  | store type _ _ _ => .store type
  | alloca type => .alloca type
  | call _ _ _ => .call
  | fence => .fence
  | branch _ => .branch
  | condBranch _ _ _ => .condBranch
  | ret _ => .ret

/-- The operands in the order that keys and counts use. A call lists its arguments before the
callee. -/
def operands : Instruction ν → List ν
  | binary _ left right => [left, right]
  | compare _ left right => [left, right]
  | extractElement vector index => [vector, index]
  | insertElement vector value index => [vector, value, index]
  | shuffleVector left right mask => [left, right, mask]
  | gep _ base indices => base :: indices
  | extractValue aggregate _ => [aggregate]
  | insertValue aggregate value _ => [aggregate, value]
  | phi incoming => incoming.map Prod.snd
  | select condition ifTrue ifFalse => [condition, ifTrue, ifFalse]
  | cast _ value _ => [value]
  | load _ pointer _ => [pointer]
  | store _ value pointer _ => [value, pointer]
  | alloca _ => []
  | call callee arguments _ => arguments ++ [callee]
  | fence => []
  | branch _ => []
  | condBranch condition _ _ => [condition]
  | ret value => value.toList

/-- The operands in the order of the text. -/
def written : Instruction ν → List ν
  | call callee arguments _ => callee :: arguments
  | x => x.operands

/-- The operands in the order in which a relocation looks at them. -/
def visited : Instruction ν → List ν
  | store _ value pointer _ => [pointer, value]
  | x => x.operands

theorem written_perm (x : Instruction ν) : x.written.Perm x.operands := by
  cases x with
  | call callee arguments effects => exact (List.perm_append_singleton callee arguments).symm
  | _ => exact .refl _

theorem visited_perm (x : Instruction ν) : x.visited.Perm x.operands := by
  cases x with
  | store type value pointer isVolatile => exact .swap value pointer []
  | _ => exact .refl _

/-! ## Changing the operands -/

/-- The instruction with `g` applied to each operand. -/
def map (g : ν → μ) : Instruction ν → Instruction μ
  | binary op left right => .binary op (g left) (g right)
  | compare p left right => .compare p (g left) (g right)
  | extractElement vector index => .extractElement (g vector) (g index)
  | insertElement vector value index => .insertElement (g vector) (g value) (g index)
  | shuffleVector left right mask => .shuffleVector (g left) (g right) (g mask)
  | gep element base indices => .gep element (g base) (indices.map g)
  | extractValue aggregate path => .extractValue (g aggregate) path
  | insertValue aggregate value path => .insertValue (g aggregate) (g value) path
  | phi incoming => .phi (incoming.map fun (block, v) => (block, g v))
  | select condition ifTrue ifFalse => .select (g condition) (g ifTrue) (g ifFalse)
  | cast op value target => .cast op (g value) target
  | load type pointer isVolatile => .load type (g pointer) isVolatile
  | store type value pointer isVolatile => .store type (g value) (g pointer) isVolatile
  | alloca type => .alloca type
  | call callee arguments effects => .call (g callee) (arguments.map g) effects
  | fence => .fence
  | branch target => .branch target
  | condBranch condition ifTrue ifFalse => .condBranch (g condition) ifTrue ifFalse
  | ret value => .ret (value.map g)

/-- The operands of a mapped instruction are the mapped operands, in order. -/
@[simp]
theorem operands_map (g : ν → μ) (x : Instruction ν) : (x.map g).operands = x.operands.map g := by
  cases x with
  | ret value => cases value <;> rfl
  | _ => simp [map, operands, Function.comp_def]

/-- Mapping the operands keeps the opcode. -/
@[simp]
theorem opcode_map (g : ν → μ) (x : Instruction ν) : (x.map g).opcode = x.opcode := by
  cases x <;> simp [map, opcode, Function.comp_def]

/-- Two maps that agree on the operands of an instruction give the same instruction. -/
theorem map_congr {g h : ν → μ} {x : Instruction ν} (agree : ∀ v ∈ x.operands, g v = h v) :
    x.map g = x.map h := by
  cases x with
  | ret value => cases value <;> simp_all [map, operands]
  | phi incoming =>
    simp only [map, phi.injEq]
    refine List.map_congr_left fun p hp => ?_
    rw [agree p.2 (List.mem_map.mpr ⟨p, hp, rfl⟩)]
  | _ => simp_all [map, operands]

@[simp]
theorem map_id (x : Instruction ν) : x.map (fun v => v) = x := by
  cases x with
  | ret value => cases value <;> rfl
  | _ => simp [map]

/-! ## Memory -/

/-- What the instruction may do to memory. A volatile access counts as a write too, so that no
other access is moved across it. -/
def effects : Instruction ν → Effects
  | load _ _ isVolatile => ⟨true, isVolatile⟩
  | store _ _ _ isVolatile => ⟨isVolatile, true⟩
  | fence => .readWrite
  | call _ _ effects => effects
  | _ => .none

/-- Whether the instruction may read memory. -/
def mayRead (x : Instruction ν) : Bool := x.effects.reads

/-- Whether the instruction may write memory. -/
def mayWrite (x : Instruction ν) : Bool := x.effects.writes

/-- Whether the instruction is a store, volatile or not. -/
def isStore : Instruction ν → Bool
  | store _ _ _ _ => true
  | _ => false

/-- Whether the instruction is a load, volatile or not. -/
def isLoad : Instruction ν → Bool
  | load _ _ _ => true
  | _ => false

/-- Whether the instruction is a call. -/
def isCall : Instruction ν → Bool
  | call _ _ _ => true
  | _ => false

/-- The bytes a load or a store touches. -/
def location? : Instruction Value → Option Location
  | load type pointer _ => some ⟨pointer, type.byteSize⟩
  | store type _ pointer _ => some ⟨pointer, type.byteSize⟩
  | _ => none

/-- The location of a load, and of nothing else. -/
def loadLocation? (x : Instruction Value) : Option Location :=
  if x.isLoad then x.location? else none

/-- The location of a store, and of nothing else. -/
def storeLocation? (x : Instruction Value) : Option Location :=
  if x.isStore then x.location? else none

@[simp]
theorem effects_map (g : ν → μ) (x : Instruction ν) : (x.map g).effects = x.effects := by
  cases x <;> rfl

/-! ## Reuse -/

/-- Whether the result depends on nothing but the opcode and the operands, and for a load on what
memory holds. Every kind is listed, so that a new one has to be classified. -/
def isReusable : Instruction ν → Bool
  | binary _ _ _ => true
  | compare _ _ _ => true
  | extractElement _ _ => true
  | insertElement _ _ _ => true
  | shuffleVector _ _ _ => true
  | gep _ _ _ => true
  | extractValue _ _ => true
  | insertValue _ _ _ => true
  | phi _ => true
  | select _ _ _ => true
  | cast _ _ _ => true
  | load _ _ isVolatile => !isVolatile
  | store _ _ _ _ => false
  | alloca _ => false
  | call _ _ _ => false
  | fence => false
  | branch _ => false
  | condBranch _ _ _ => false
  | ret _ => false

/-- Whether the instruction has a result. A call always has one, named or not. -/
def producesValue : Instruction ν → Bool
  | store _ _ _ _ => false
  | fence => false
  | branch _ => false
  | condBranch _ _ _ => false
  | ret _ => false
  | _ => true

@[simp]
theorem isReusable_map (g : ν → μ) (x : Instruction ν) : (x.map g).isReusable = x.isReusable := by
  cases x <;> rfl

@[simp]
theorem producesValue_map (g : ν → μ) (x : Instruction ν) :
    (x.map g).producesValue = x.producesValue := by
  cases x <;> rfl

end Instruction

end BlockReuse
