import Mathlib.Data.List.Nodup
import BlockReuse.Ir.Func

/-!
# Placement — an instruction stands in one block, at one place

That every instruction stands in exactly one block is part of the type of functions. Here it is put
in the forms that arguments about scans and runs use: the members of a block are distinct and are
instructions of the function, two blocks share none, and when a member is reached, in order, the
members that were passed are those that stand before it.
-/

set_option autoImplicit false

namespace BlockReuse.Func

variable {f : Func} {b c : Block} {index other n m : Nat} {done : List Nat}

theorem nodup_members_blocks (f : Func) : (f.blocks.flatMap Block.members).Nodup :=
  f.placed.nodup_iff.mpr List.nodup_range

/-- A block has no member twice. -/
theorem nodup_members (mem : b ∈ f.blocks) : b.members.Nodup :=
  (List.nodup_flatMap.mp f.nodup_members_blocks).1 b mem

/-- The members of a block are instructions of the function. -/
theorem exists_instruction?_of_mem (mem : b ∈ f.blocks) (member : index ∈ b.members) :
    ∃ x, f.instruction? index = some x := by
  have placed : index ∈ f.blocks.flatMap Block.members := List.mem_flatMap.mpr ⟨b, mem, member⟩
  have bound : index < f.definitions.length := List.mem_range.mp (f.placed.mem_iff.mp placed)
  exact ⟨(f.definitions[index]).instruction, by simp [instruction?, bound]⟩

/-- Blocks that share a member are one block. -/
theorem block_eq_of_mem (first : f.blocks[n]? = some b) (second : f.blocks[m]? = some c)
    (member : index ∈ b.members) (shared : index ∈ c.members) : n = m := by
  have apart := (List.nodup_flatMap.mp f.nodup_members_blocks).2
  obtain ⟨nBound, rfl⟩ := List.getElem?_eq_some_iff.mp first
  obtain ⟨mBound, rfl⟩ := List.getElem?_eq_some_iff.mp second
  rcases Nat.lt_trichotomy n m with lt | eq | gt
  · exact absurd shared (List.pairwise_iff_getElem.mp apart n m nBound mBound lt member)
  · exact eq
  · exact absurd member (List.pairwise_iff_getElem.mp apart m n mBound nBound gt shared)

/-- The next member of a block is none of those before it. -/
theorem not_mem_of_prefix (mem : b ∈ f.blocks) (inBlock : done ++ [index] <+: b.members) :
    index ∉ done := by
  have distinct := (nodup_members mem).sublist inBlock.sublist
  intro seen
  exact List.disjoint_of_nodup_append distinct seen (by simp)

/-- The place of the next member is the number of those before it. -/
theorem idxOf_eq_length (mem : b ∈ f.blocks) (inBlock : done ++ [index] <+: b.members) :
    b.members.idxOf index = done.length := by
  have new := not_mem_of_prefix mem inBlock
  obtain ⟨rest, members⟩ := inBlock
  rw [← members, List.append_assoc, List.idxOf_append, if_neg new, List.singleton_append,
    List.idxOf_cons_self, Nat.zero_add]

/-- What stands before the next member of a block has been passed. -/
theorem idxOf_lt_iff_mem (mem : b ∈ f.blocks) (inBlock : done ++ [index] <+: b.members) :
    b.members.idxOf other < b.members.idxOf index ↔ other ∈ done := by
  rw [idxOf_eq_length mem inBlock]
  obtain ⟨rest, members⟩ := inBlock
  rw [← members, List.append_assoc]
  constructor
  · intro before
    by_contra unseen
    rw [List.idxOf_append, if_neg unseen] at before
    omega
  · intro seen
    rw [List.idxOf_append, if_pos seen]
    exact List.idxOf_lt_length_of_mem seen

/-- A member is reached by one way through its block. -/
theorem eq_of_prefixes {done' : List Nat} (mem : b ∈ f.blocks)
    (first : done ++ [index] <+: b.members) (second : done' ++ [index] <+: b.members) :
    done = done' := by
  have length : done.length = done'.length := by
    rw [← idxOf_eq_length mem first, idxOf_eq_length mem second]
  have cut := (List.prefix_append done [index]).trans first
  have cut' := (List.prefix_append done' [index]).trans second
  exact (List.prefix_of_prefix_length_le cut cut' (Nat.le_of_eq length)).eq_of_length length

end BlockReuse.Func
