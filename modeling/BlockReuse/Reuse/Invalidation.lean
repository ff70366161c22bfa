import BlockReuse.Alias.Oracle
import BlockReuse.Ir.Func
import BlockReuse.Reuse.Table

/-!
# Invalidation — the entries a write to memory ends

When an instruction may write memory, an entry whose representative reads memory stays only if the
writer is a store, the representative a load, and the oracle knows that the two locations never
overlap. Every other writer ends all memory reads.
-/

set_option autoImplicit false

namespace BlockReuse

/-- The question that decides whether an entry outlives a write: the location of its load and that
of the store. -/
def clobberQuery? (f : Func) (writer : Instruction Value) (e : Entry) :
    Option (Location × Location) :=
  match (f.instruction? e.representative).bind Instruction.loadLocation?, writer.storeLocation? with
  | some loaded, some stored => some (loaded, stored)
  | _, _ => none

/-- Whether the representative of an entry reads memory. -/
def Entry.readsMemory (e : Entry) (f : Func) : Bool :=
  (f.instruction? e.representative).any Instruction.mayRead

/-- Whether an entry outlives a write. -/
def outlives (f : Func) (oracle : Oracle) (writer : Instruction Value) (e : Entry) : Bool :=
  !e.readsMemory f ||
    (clobberQuery? f writer e).any fun (loaded, stored) => decide (oracle loaded stored = .no)

/-- A table after a write, and the questions that were asked. -/
structure Invalidation where
  table : ExpressionTable
  queries : List (Location × Location)

/-- Ends the entries a write may change. -/
def invalidate (table : ExpressionTable) (f : Func) (oracle : Oracle)
    (writer : Instruction Value) : Invalidation where
  table := table.retain (outlives f oracle writer)
  queries := table.entries.filterMap (clobberQuery? f writer)

/-- Ends the entries a write may change; there is no answer when a representative is no
instruction of the function. -/
def invalidate? (table : ExpressionTable) (f : Func) (oracle : Oracle)
    (writer : Instruction Value) : Option Invalidation :=
  if table.entries.all fun e => (f.instruction? e.representative).isSome then
    some (invalidate table f oracle writer)
  else none

end BlockReuse
