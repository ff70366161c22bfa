import BlockReuse.Reuse.Key

/-!
# Expression tables — the live expressions of the block being scanned

A table holds entries, each a key and the instruction that represents it, and no two entries have
one key. All questions are about keys or representatives, so the order of the entries does not
show in any answer.
-/

set_option autoImplicit false

namespace BlockReuse

/-- A key and the instruction that computes it. -/
structure Entry where
  key : ExpressionKey
  representative : Nat
  deriving DecidableEq, Repr

/-- Entries with different keys. -/
structure ExpressionTable where
  entries : List Entry
  distinct : (entries.map Entry.key).Nodup
  deriving DecidableEq, Repr

namespace ExpressionTable

/-- The table without entries. -/
def empty : ExpressionTable := ⟨[], .nil⟩

/-- The number of entries. -/
def size (t : ExpressionTable) : Nat := t.entries.length

/-- The representative of a key. -/
def find? (t : ExpressionTable) (key : ExpressionKey) : Option Nat :=
  (t.entries.find? fun e => decide (e.key = key)).map Entry.representative

/-- The table of the entries that `keep` accepts. Each entry is decided on its own. -/
def retain (t : ExpressionTable) (keep : Entry → Bool) : ExpressionTable :=
  ⟨t.entries.filter keep, t.distinct.sublist (List.filter_sublist.map _)⟩

/-- The table without a key. -/
def erase (t : ExpressionTable) (key : ExpressionKey) : ExpressionTable :=
  t.retain fun e => decide (e.key ≠ key)

/-- The table without the entries an instruction represents. -/
def eraseRepresentative (t : ExpressionTable) (index : Nat) : ExpressionTable :=
  t.retain fun e => decide (e.representative ≠ index)

/-- Makes an instruction the representative of a key, in the place of any other. -/
def insert (t : ExpressionTable) (key : ExpressionKey) (index : Nat) : ExpressionTable where
  entries := ⟨key, index⟩ :: (t.erase key).entries
  distinct := by
    refine List.nodup_cons.mpr ⟨?_, (t.erase key).distinct⟩
    simp [erase, retain]

/-- The representative of a key, which `index` becomes if there is none yet. -/
def lookupOrInsert (t : ExpressionTable) (key : ExpressionKey) (index : Nat) :
    Option Nat × ExpressionTable :=
  match t.find? key with
  | some representative => (some representative, t)
  | none => (none, t.insert key index)

end ExpressionTable

end BlockReuse
