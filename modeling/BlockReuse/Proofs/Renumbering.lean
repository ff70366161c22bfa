import BlockReuse.Proofs.NumberedScan

/-!
# Renumbering — a function that was numbered is its own numbering

A pass over a function without forward references replaces every result by that of its leader. What
is left to be mentioned are leaders, and a leader leads itself (`Func.Straight.canon_canon`). So a
duplicate in the numbered function has no use: its leader is another instruction, and nothing that
is mentioned has another leader (`Func.Straight.not_hasLiveDuplicate`).
-/

set_option autoImplicit false

namespace BlockReuse.Func

variable {f : Func} {oracle : Oracle} {b : Block} {i k : Nat} {v : Value}

/-! ## Leaders are their own leaders -/

/-- A result is replaced by that of its leader in the numbered function. -/
theorem Straight.canon_eq_leader (straight : f.Straight) (inside : i < f.instructions.length) :
    f.canon Instruction.isReusable oracle (.inst i) =
      .inst ((f.numbered oracle).leader Instruction.isReusable oracle i) :=
  straight.canon_inst inside

/-- What is no instruction of the function keeps its place. -/
theorem canon_inst_of_length_le (outside : f.instructions.length ≤ i) :
    f.canon Instruction.isReusable oracle (.inst i) = .inst i := by
  rw [canon, renumber, List.getD_eq_default _ _ (by simpa using outside)]

/-- What has no key leads itself. -/
theorem leader_of_key?_none (unkeyed : f.key? i = none) :
    f.leader Instruction.isReusable oracle i = i := by
  apply leader_of_not_reusable
  cases found : f.instruction? i with
  | none => rfl
  | some x =>
    rw [← found]
    apply any_isReusable_of_key?_none found
    rwa [key?, found, Option.bind_some] at unkeyed

theorem leader_idem (f : Func) (oracle : Oracle) (i : Nat) :
    f.leader Instruction.isReusable oracle (f.leader Instruction.isReusable oracle i) =
      f.leader Instruction.isReusable oracle i := by
  cases keyed : f.key? i with
  | some key => exact leader_leader keyed
  | none => rw [leader_of_key?_none keyed, leader_of_key?_none keyed]

/-- Numbering what is numbered changes nothing. -/
theorem Straight.canon_canon (straight : f.Straight) (oracle : Oracle) (v : Value) :
    f.canon Instruction.isReusable oracle (f.canon Instruction.isReusable oracle v) =
      f.canon Instruction.isReusable oracle v := by
  cases v with
  | inst i =>
    by_cases inside : i < f.instructions.length
    · have le := (f.numbered oracle).leader_le Instruction.isReusable oracle i
      rw [straight.canon_eq_leader inside,
        straight.canon_eq_leader (Nat.lt_of_le_of_lt le inside), leader_idem]
    · have outside := Nat.le_of_not_lt inside
      rw [canon_inst_of_length_le outside, canon_inst_of_length_le outside]
  | argument index => rfl
  | global index => rfl
  | const value => rfl

/-- What the numbered function mentions is numbered. -/
theorem Straight.canon_of_mem_operands (straight : f.Straight) {x : Instruction Value}
    (found : (f.numbered oracle).instruction? i = some x) (mem : v ∈ x.operands) :
    f.canon Instruction.isReusable oracle v = v := by
  rw [numbered, instruction?_mapOperands] at found
  obtain ⟨y, -, rfl⟩ := Option.map_eq_some_iff.mp found
  rw [Instruction.operands_map] at mem
  obtain ⟨w, -, rfl⟩ := List.mem_map.mp mem
  exact straight.canon_canon oracle w

/-! ## Duplicates of the numbered function -/

/-- An instruction that has a duplicate before it is led by another. -/
theorem Straight.leader_lt_of_duplicate (straight : f.Straight) {earlier later : Nat}
    (mem : b ∈ f.blocks) (duplicate : (f.numbered oracle).Duplicate oracle b later earlier) :
    (f.numbered oracle).leader Instruction.isReusable oracle later < later := by
  obtain ⟨before, between, rest, key, members, earlierKey, laterKey, alone⟩ := duplicate
  have reached : before ++ earlier :: between ++ [later] <+: b.members :=
    ⟨rest, by rw [members]; simp⟩
  have cut : before ++ [earlier] <+: b.members :=
    ⟨between ++ later :: rest, by rw [members]; simp⟩
  have laterMem : later ∈ b.members := reached.subset (by simp)
  have earlierMem : earlier ∈ b.members := cut.subset (by simp)
  have lt : earlier < later := ((straight.mem_done_iff mem reached).mp (by simp)).2
  have inBlocks : ∀ k, (f.numbered oracle).InOneBlock k later ↔ k ∈ b.members :=
    fun k => inOneBlock_iff mem laterMem
  -- what stands between the two by number stands between them in the block
  have stands : (f.numbered oracle).StandsFor Instruction.isReusable oracle earlier later := by
    apply standsFor_of_key? ((inBlocks earlier).mpr earlierMem) earlierKey laterKey
    intro load k before' behind inside
    refine alone load k ?_
    have seen := (straight.mem_done_iff mem reached).mpr ⟨(inBlocks k).mp inside, before'⟩
    rcases List.mem_append.mp seen with inFront | inside
    · have := ((straight.mem_done_iff mem cut).mp inFront).2
      omega
    · rcases List.mem_cons.mp inside with same | inside
      · omega
      · exact inside
  have least := leader_le_of_standsFor (any_isReusable_of_key? laterKey) stands
  omega

/-- No duplicate of the numbered function has a use. -/
theorem Straight.not_hasLiveDuplicate (straight : f.Straight) (oracle : Oracle) :
    ¬ (f.numbered oracle).HasLiveDuplicate oracle := by
  intro live
  obtain ⟨b, mem, later, earlier, duplicate, used⟩ := live
  have lt := straight.leader_lt_of_duplicate mem duplicate
  obtain ⟨user, uses⟩ := List.exists_mem_of_ne_nil _ used
  obtain ⟨x, found, mentioned⟩ := mem_usersOf.mp uses
  rw [← instruction?_eq_getElem?] at found
  have own := straight.canon_of_mem_operands found mentioned
  by_cases inside : later < f.instructions.length
  · rw [straight.canon_eq_leader inside] at own
    exact Nat.ne_of_lt lt (Value.inst.inj own)
  · obtain ⟨before, between, rest, key, members, -, laterKey, -⟩ := duplicate
    obtain ⟨y, laterFound, -⟩ := key?_eq_some.mp laterKey
    rw [instruction?_eq_getElem?, List.getElem?_eq_none] at laterFound
    · cases laterFound
    · simpa [numbered] using inside

end BlockReuse.Func
