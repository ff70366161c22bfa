import BlockReuse.Reuse.Invalidation
import BlockReuse.Reuse.Redirection

/-!
# Scans — reusing results within each block of a function

A block is scanned once, forward. Each reusable instruction is looked up by its key: the first with
a key represents it, and the uses of a later one are redirected to the representative. An
instruction that may write memory first ends the entries it may change. Duplicates stay where they
are; only uses move.

Blocks share no table. A scan does not change which instructions a block has, nor their order, so
the members to visit are fixed when it starts.
-/

set_option autoImplicit false

namespace BlockReuse

/-- The state between two steps of a scan: the function so far, the live expressions, the members
already visited, and what was reported. -/
structure Scan where
  func : Func
  table : ExpressionTable
  scanned : List Nat
  events : List Event

namespace Scan

/-- A scan before its first step. -/
def start (f : Func) : Scan := ⟨f, .empty, [], []⟩

/-- Ends the entries that the write of an instruction may change, if it may write. -/
def passWrite (s : Scan) (oracle : Oracle) (block index : Nat) (x : Instruction Value) : Scan :=
  if x.mayWrite then
    let after := invalidate s.table s.func oracle x
    { s with
      table := after.table
      events :=
        s.events ++ [.memoryWritten index block (s.table.size - after.table.size) after.queries] }
  else s

/-- Counts an instruction among the scanned ones. -/
def visit (s : Scan) (index : Nat) : Scan := { s with scanned := s.scanned ++ [index] }

/-- Looks up an instruction that was just visited. -/
def lookUp (s : Scan) (index : Nat) (key : ExpressionKey) : Scan :=
  match s.table.find? key with
  | none =>
    { s with
      table := s.table.insert key index
      events := s.events ++ [.newExpression index] }
  | some representative =>
    if h : s.scanned.idxOf representative < s.scanned.idxOf index then
      let settled := settle s.func s.table s.scanned [⟨index, representative, h⟩]
      { s with
        func := settled.func
        table := settled.table
        events := s.events ++ settled.events }
    else s

/-- One step: the member `index` of the block. -/
def step (oracle : Oracle) (block : Nat) (s : Scan) (index : Nat) : Scan :=
  match s.func.instruction? index with
  | none => s.visit index
  | some x =>
    let s := (s.passWrite oracle block index x).visit index
    match x.key? with
    | none => s
    | some key => s.lookUp index key

/-- The scan of a list of members. -/
def run (oracle : Oracle) (block : Nat) (f : Func) (members : List Nat) : Scan :=
  members.foldl (step oracle block) (start f)

end Scan

/-- A function after a pass, and what the pass reported. -/
structure Outcome where
  func : Func
  events : List Event

namespace Outcome

/-- Whether some use was moved. -/
def modified (o : Outcome) : Bool :=
  o.events.any fun
    | .redirected _ _ users => !users.isEmpty
    | _ => false

/-- The questions that were asked, in order. -/
def queries (o : Outcome) : List (Location × Location) :=
  o.events.flatMap fun
    | .memoryWritten _ _ _ queries => queries
    | _ => []

end Outcome

/-- Reuses results within the members of one block. -/
def reuseMembers (oracle : Oracle) (f : Func) (block : Nat) (members : List Nat) : Outcome :=
  let scan := Scan.run oracle block f members
  ⟨scan.func, scan.events⟩

/-- Reuses results within one block, if the function has it. -/
def reuseBlock? (oracle : Oracle) (f : Func) (block : Nat) : Option Outcome :=
  f.blocks[block]?.map fun b => reuseMembers oracle f block b.members

/-- Reuses results within each block, in order. -/
def reuse (oracle : Oracle) (f : Func) : Outcome :=
  f.blocks.zipIdx.foldl
    (fun o (b, block) =>
      let next := reuseMembers oracle o.func block b.members
      ⟨next.func, o.events ++ next.events⟩)
    ⟨f, []⟩

/-- The name of the pass. -/
def passName : String := "local-cse"

end BlockReuse
