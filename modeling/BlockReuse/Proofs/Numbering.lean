import Mathlib.Data.List.GetD
import BlockReuse.Proofs.Duplicates

/-!
# Value numbering — what a pass does to a function without forward references, said without a scan

In a function whose instructions use earlier results only, every instruction can be given a leader
by looking back over its block: the least instruction that computes the same, where operands are
compared by their leaders, and where a load must not have a write in between that may change what it
reads (`Func.StandsFor`, `Func.leader`). Replacing every result by its leader is the numbering of
the function, `Func.canon`. It is a recursion over the instructions that knows no table, no order of
visits and no moves.

A pass does exactly this (`reuse_eq_mapOperands_canon`). The argument compares the scan with the
numbered function `f.numbered`. When the scan has come to an instruction, operands of all
instructions up to there are final, because they name results that were numbered already; so each
question the scan asks is one about the numbered function. Its table holds the leaders of the block
that no write since has ended (`Scan.Numbered`), and a user of the instruction at hand stands behind
it, so that nothing has to be keyed again.

A leader has to be reusable itself: a volatile load has the opcode of a plain one, and stands for
none (`volatileLoad`).
-/

set_option autoImplicit false

namespace BlockReuse

namespace Func

/-! ## The numbering of a function -/

/-- The blocks hold the instructions in their order, and every instruction uses earlier results
only. -/
structure Straight (f : Func) : Prop where
  inOrder : f.blocks.flatMap Block.members = List.range f.instructions.length
  earlier : ∀ i x, f.instruction? i = some x → ∀ k, Value.inst k ∈ x.operands → k < i

instance (f : Func) : Decidable f.Straight :=
  decidable_of_iff
    (f.blocks.flatMap Block.members = List.range f.instructions.length ∧
      ∀ i < f.instructions.length, ∀ x ∈ f.instruction? i, ∀ v ∈ x.operands, ∀ k ∈ v.inst?, k < i)
    ⟨fun ⟨inOrder, earlier⟩ => ⟨inOrder, fun i x found k mem =>
        earlier i (List.getElem?_eq_some_iff.mp (instruction?_eq_getElem? f i ▸ found)).1
          x found _ mem k rfl⟩,
      fun ⟨inOrder, earlier⟩ => ⟨inOrder, fun i _ x found v mem k named => by
        cases v with
        | inst index =>
          cases named
          exact earlier i x found _ mem
        | argument index => cases named
        | global index => cases named
        | const value => cases named⟩⟩

/-- Whether two instructions stand in one block. -/
def InOneBlock (f : Func) (i j : Nat) : Prop := ∃ b ∈ f.blocks, i ∈ b.members ∧ j ∈ b.members

/-- Whether a writer that stands between leaves a load alone. -/
def leavesAlone (f : Func) (oracle : Oracle) (load writer : Nat) : Bool :=
  (f.instruction? writer).all fun x =>
    !x.mayWrite ||
      (x.isStore &&
        match f.location? load, x.location? with
        | some loaded, some stored => decide (oracle loaded stored = .no)
        | _, _ => false)

theorem leavesAlone_iff {f : Func} {oracle : Oracle} {load writer : Nat} :
    f.leavesAlone oracle load writer = true ↔ f.LeavesAlone oracle load writer := by
  rw [leavesAlone, LeavesAlone, Option.all_eq_true]
  refine forall_congr' fun x => ?_
  constructor
  · intro alone found writes
    have alone := alone found
    simp only [writes, Bool.not_true, Bool.false_or, Bool.and_eq_true] at alone
    obtain ⟨stores, apart⟩ := alone
    split at apart
    · next loaded stored loadedAt storedAt =>
      exact ⟨stores, loaded, stored, loadedAt, by rw [location?, found]; exact storedAt,
        of_decide_eq_true apart⟩
    · cases apart
  · intro alone found
    cases writes : x.mayWrite with
    | false => rfl
    | true =>
      obtain ⟨stores, loaded, stored, loadedAt, storedAt, apart⟩ := alone found writes
      rw [location?, found] at storedAt
      simp only [Option.bind_some] at storedAt
      simp [stores, loadedAt, storedAt, apart]

instance (f : Func) (oracle : Oracle) (load writer : Nat) :
    Decidable (f.LeavesAlone oracle load writer) :=
  decidable_of_iff _ leavesAlone_iff

instance (f : Func) (i j : Nat) : Decidable (f.InOneBlock i j) :=
  inferInstanceAs (Decidable (∃ b ∈ f.blocks, i ∈ b.members ∧ j ∈ b.members))

/-- `j` can stand for `i`: it is in the same block and is one of the instructions that may stand for
others, the two have the same opcode and the same first operands, and if they are loads then every
instruction between them that may write is a store the oracle puts apart from them. -/
def StandsFor (f : Func) (admits : Instruction Value → Bool) (oracle : Oracle) (j i : Nat) : Prop :=
  f.InOneBlock j i ∧
  (∃ y ∈ f.instruction? j, ∃ x ∈ f.instruction? i, admits y = true ∧ y.opcode = x.opcode ∧
    y.operands.take keyWidth = x.operands.take keyWidth) ∧
  (f.isLoad i = true → ∀ k < i, j < k → f.InOneBlock k i → f.LeavesAlone oracle i k)

instance (f : Func) (admits : Instruction Value → Bool) (oracle : Oracle) (j i : Nat) :
    Decidable (f.StandsFor admits oracle j i) :=
  inferInstanceAs (Decidable (_ ∧ _ ∧ _))

/-- The least instruction that can stand for a reusable instruction; any other instruction is its
own leader. -/
def leader (f : Func) (admits : Instruction Value → Bool) (oracle : Oracle) (i : Nat) : Nat :=
  if (f.instruction? i).any Instruction.isReusable then
    ((List.range (i + 1)).find? fun j => decide (f.StandsFor admits oracle j i)).getD i
  else i

end Func

/-- Replaces the results of the first instructions by those of their leaders. -/
def renumber (leaders : List Nat) : Value → Value
  | .inst k => .inst (leaders.getD k k)
  | v => v

namespace Func

/-- The leaders of the first `n` instructions. An instruction's leader is found with its operands,
and those of the instructions before it, replaced by their leaders. -/
def leaders (f : Func) (admits : Instruction Value → Bool) (oracle : Oracle) : Nat → List Nat
  | 0 => []
  | n + 1 =>
    f.leaders admits oracle n ++
      [(f.mapOperands (renumber (f.leaders admits oracle n))).leader admits oracle n]

/-- The numbering of a function: every result is replaced by that of its leader. -/
def canon (f : Func) (admits : Instruction Value → Bool) (oracle : Oracle) : Value → Value :=
  renumber (f.leaders admits oracle f.instructions.length)

/-! ## Leaders -/

section Leader

variable {f g : Func} {admits : Instruction Value → Bool} {oracle : Oracle} {i j k : Nat}

theorem leader_le (f : Func) (admits : Instruction Value → Bool) (oracle : Oracle) (i : Nat) :
    f.leader admits oracle i ≤ i := by
  unfold leader
  split
  · cases found : (List.range (i + 1)).find? fun j => decide (f.StandsFor admits oracle j i) with
    | none => exact Nat.le_refl _
    | some j => exact Nat.le_of_lt_succ (List.mem_range.mp (List.mem_of_find?_eq_some found))
  · exact Nat.le_refl _

theorem leader_of_not_reusable (fixed : (f.instruction? i).any Instruction.isReusable = false) :
    f.leader admits oracle i = i := by
  simp [leader, fixed]

/-- A leader that is another instruction can stand for the one it leads. -/
theorem standsFor_leader (other : f.leader admits oracle i ≠ i) :
    f.StandsFor admits oracle (f.leader admits oracle i) i := by
  unfold leader at other ⊢
  split at other
  · next reusable =>
    rw [if_pos reusable]
    cases found : (List.range (i + 1)).find? fun j => decide (f.StandsFor admits oracle j i) with
    | none => simp [found] at other
    | some j => simpa using List.find?_some found
  · exact absurd rfl other

/-- No instruction before the leader can stand for the one it leads. -/
theorem leader_le_of_standsFor (reusable : (f.instruction? i).any Instruction.isReusable = true)
    (stands : f.StandsFor admits oracle j i) : f.leader admits oracle i ≤ j := by
  by_cases inside : j < i + 1
  · unfold leader
    rw [if_pos reusable]
    cases found : (List.range (i + 1)).find? fun j => decide (f.StandsFor admits oracle j i) with
    | none =>
      have none := List.find?_eq_none.mp found j (List.mem_range.mpr inside)
      exact absurd (decide_eq_true stands) none
    | some l =>
      obtain ⟨-, -, missed⟩ := List.find?_range_eq_some.mp found
      by_contra before
      have refused := missed j (Nat.lt_of_not_le before)
      simp [stands] at refused
  · exact Nat.le_trans (f.leader_le admits oracle i) (by omega)

theorem leavesAlone_congr {load writer : Nat} (loads : g.instruction? load = f.instruction? load)
    (writers : g.instruction? writer = f.instruction? writer) :
    g.LeavesAlone oracle load writer ↔ f.LeavesAlone oracle load writer := by
  simp only [LeavesAlone, location?, loads, writers]

/-- Whether an instruction can stand for another is decided by the instructions up to the latter. -/
theorem StandsFor.congr (blocks : g.blocks = f.blocks)
    (agree : ∀ k ≤ i, g.instruction? k = f.instruction? k) (le : j ≤ i)
    (stands : f.StandsFor admits oracle j i) : g.StandsFor admits oracle j i := by
  obtain ⟨block, alike, alone⟩ := stands
  have sameBlock : ∀ k l, g.InOneBlock k l ↔ f.InOneBlock k l := by
    intro k l
    rw [InOneBlock, blocks, InOneBlock]
  refine ⟨(sameBlock j i).mpr block, ?_, ?_⟩
  · rwa [agree j le, agree i (Nat.le_refl i)]
  · intro load k before after inside
    rw [isLoad, agree i (Nat.le_refl i)] at load
    have alone := alone load k before after ((sameBlock k i).mp inside)
    exact (leavesAlone_congr (agree i (Nat.le_refl i)) (agree k (Nat.le_of_lt before))).mpr alone

theorem leader_congr (blocks : g.blocks = f.blocks)
    (agree : ∀ k ≤ i, g.instruction? k = f.instruction? k) :
    g.leader admits oracle i = f.leader admits oracle i := by
  unfold leader
  rw [agree i (Nat.le_refl i)]
  have stands : ∀ j ∈ List.range (i + 1),
      decide (g.StandsFor admits oracle j i) = decide (f.StandsFor admits oracle j i) := by
    intro j inside
    have le : j ≤ i := Nat.le_of_lt_succ (List.mem_range.mp inside)
    have same : g.StandsFor admits oracle j i ↔ f.StandsFor admits oracle j i :=
      ⟨.congr blocks.symm (fun k le => (agree k le).symm) le, .congr blocks agree le⟩
    exact decide_eq_decide.mpr same
  rw [← List.head?_filter, ← List.head?_filter, List.filter_congr stands]

end Leader

/-! ## The numbered function -/

section Numbered

variable {f : Func} {admits : Instruction Value → Bool} {oracle : Oracle} {i k m n : Nat}

/-- The function when the results of the first `n` instructions are replaced. -/
def stage (f : Func) (admits : Instruction Value → Bool) (oracle : Oracle) (n : Nat) : Func :=
  f.mapOperands (renumber (f.leaders admits oracle n))

@[simp]
theorem length_leaders (f : Func) (admits : Instruction Value → Bool) (oracle : Oracle) (n : Nat) :
    (f.leaders admits oracle n).length = n := by
  induction n with
  | zero => rfl
  | succ n ih => simp [leaders, ih]

theorem leaders_prefix (f : Func) (admits : Instruction Value → Bool) (oracle : Oracle)
    (le : m ≤ n) : f.leaders admits oracle m <+: f.leaders admits oracle n := by
  induction le with
  | refl => exact List.prefix_refl _
  | step _ ih => exact ih.trans (List.prefix_append _ _)

/-- The leaders that are known do not change when more are. -/
theorem renumber_leaders_eq (known : k < m) (le : m ≤ n) :
    renumber (f.leaders admits oracle n) (.inst k) =
      renumber (f.leaders admits oracle m) (.inst k) := by
  obtain ⟨rest, whole⟩ := f.leaders_prefix admits oracle le
  rw [← whole]
  simp [renumber, List.getD_eq_getElem?_getD, List.getElem?_append_left, known]

/-- No instruction has a leader behind it. -/
theorem getD_leaders_le (f : Func) (admits : Instruction Value → Bool) (oracle : Oracle)
    (n k : Nat) : (f.leaders admits oracle n).getD k k ≤ k := by
  induction n with
  | zero => simp [leaders]
  | succ n ih =>
    rcases Nat.lt_trichotomy k n with lt | rfl | gt
    · simpa [leaders, List.getD_eq_getElem?_getD, List.getElem?_append_left, lt] using ih
    · simpa [leaders, List.getD_eq_getElem?_getD] using leader_le ..
    · exact Nat.le_of_eq (List.getD_eq_default _ _ (by simpa using Nat.succ_le_of_lt gt))

/-- One more leader is one more move. -/
theorem stage_succ (f : Func) (admits : Instruction Value → Bool) (oracle : Oracle) (n : Nat) :
    f.stage admits oracle (n + 1) =
      (f.stage admits oracle n).mapOperands
        (moveUses n (.inst ((f.stage admits oracle n).leader admits oracle n))) := by
  rw [stage, stage, mapOperands_mapOperands]
  congr 1
  funext v
  cases v with
  | inst k =>
    rcases Nat.lt_trichotomy k n with lt | rfl | gt
    · rw [renumber_leaders_eq lt (Nat.le_succ n)]
      refine (moveUses_of_ne fun same => ?_).symm
      have le := f.getD_leaders_le admits oracle n k
      have same := Value.inst.inj same
      omega
    · simp [renumber, leaders, List.getD_eq_getElem?_getD]
    · have unknown : ∀ m ≤ k, renumber (f.leaders admits oracle m) (.inst k) = .inst k := by
        intro m le
        rw [renumber, List.getD_eq_default _ _ (by simpa using le)]
      rw [unknown (n + 1) gt, unknown n (Nat.le_of_lt gt), moveUses_of_ne]
      rintro ⟨⟩
      omega
  | argument index => rfl
  | global index => rfl
  | const value => rfl

/-- An instruction that leads itself makes no difference. -/
theorem stage_succ_of_leader (self : (f.stage admits oracle n).leader admits oracle n = n) :
    f.stage admits oracle (n + 1) = f.stage admits oracle n := by
  rw [stage_succ, self]
  refine (mapOperands_congr fun v _ => ?_).trans (mapOperands_id _)
  by_cases same : v = .inst n
  · rw [same, moveUses_source]
  · exact moveUses_of_ne same

/-- The operands of an instruction are final when the results before it are replaced. -/
theorem Straight.instruction?_stage (straight : f.Straight) (le : i ≤ m) (le' : m ≤ n) :
    (f.stage admits oracle m).instruction? i = (f.stage admits oracle n).instruction? i := by
  rw [stage, stage, instruction?_mapOperands, instruction?_mapOperands]
  cases found : f.instruction? i with
  | none => rfl
  | some x =>
    have same : x.map (renumber (f.leaders admits oracle m)) =
        x.map (renumber (f.leaders admits oracle n)) := by
      refine Instruction.map_congr fun v mem => ?_
      cases v with
      | inst k =>
        have before := straight.earlier i x found k mem
        exact (renumber_leaders_eq (Nat.lt_of_lt_of_le before le) le').symm
      | argument index => rfl
      | global index => rfl
      | const value => rfl
    rw [Option.map_some, Option.map_some, same]

/-- The numbering is the one that gives every result the leader it has in the numbered function. -/
theorem Straight.canon_inst (straight : f.Straight) (inside : i < f.instructions.length) :
    f.canon admits oracle (.inst i) =
      .inst ((f.mapOperands (f.canon admits oracle)).leader admits oracle i) := by
  have known : f.canon admits oracle (.inst i) =
      renumber (f.leaders admits oracle (i + 1)) (.inst i) :=
    renumber_leaders_eq (Nat.lt_succ_self i) inside
  have last : renumber (f.leaders admits oracle (i + 1)) (.inst i) =
      .inst ((f.stage admits oracle i).leader admits oracle i) := by
    simp [renumber, leaders, stage, List.getD_eq_getElem?_getD]
  rw [known, last]
  exact congrArg Value.inst
    (leader_congr rfl fun k le => straight.instruction?_stage le (Nat.le_of_lt inside))

/-- The function with every result replaced by that of its leader, where reusable instructions may
lead others. -/
def numbered (f : Func) (oracle : Oracle) : Func :=
  f.mapOperands (f.canon Instruction.isReusable oracle)

/-- What the scan sees of an instruction when it comes to it is what the numbered function has. -/
theorem Straight.instruction?_numbered (straight : f.Straight) (le : i ≤ n)
    (inside : n ≤ f.instructions.length) :
    (f.stage Instruction.isReusable oracle n).instruction? i = (f.numbered oracle).instruction? i :=
  straight.instruction?_stage le inside

/-- So its leader is that in the numbered function. -/
theorem Straight.leader_stage (straight : f.Straight) (inside : n ≤ f.instructions.length) :
    (f.stage Instruction.isReusable oracle n).leader Instruction.isReusable oracle n =
      (f.numbered oracle).leader Instruction.isReusable oracle n :=
  leader_congr rfl fun _ le => straight.instruction?_numbered le inside

/-- When the scan comes to an instruction, its users stand behind it. -/
theorem Straight.lt_of_mem_usersOf (straight : f.Straight)
    (user : k ∈ (f.stage admits oracle n).usersOf n) : n < k := by
  obtain ⟨y, yFound, mem⟩ := mem_usersOf.mp user
  rw [← instruction?_eq_getElem?, stage, instruction?_mapOperands] at yFound
  obtain ⟨x, found, rfl⟩ := Option.map_eq_some_iff.mp yFound
  rw [Instruction.operands_map] at mem
  obtain ⟨v, vMem, same⟩ := List.mem_map.mp mem
  cases v with
  | inst l =>
    have before := straight.earlier k x found l vMem
    have le := f.getD_leaders_le admits oracle n l
    have same := Value.inst.inj same
    omega
  | argument index => cases same
  | global index => cases same
  | const value => cases same

end Numbered

/-! ## Leaders and keys -/

section Keys

variable {f : Func} {oracle : Oracle} {b : Block} {i j k n : Nat} {key : ExpressionKey}
  {done : List Nat}

theorem any_isReusable_of_key? (keyed : f.key? i = some key) :
    (f.instruction? i).any Instruction.isReusable = true := by
  obtain ⟨x, found, keyed⟩ := key?_eq_some.mp keyed
  rw [found, Option.any_some, Instruction.isReusable_of_key? keyed]

theorem any_isReusable_of_key?_none {x : Instruction Value} (found : f.instruction? i = some x)
    (unkeyed : x.key? = none) : (f.instruction? i).any Instruction.isReusable = false := by
  rw [found, Option.any_some]
  cases reusable : x.isReusable with
  | false => rfl
  | true => simp [Instruction.key?, reusable] at unkeyed

theorem InOneBlock.symm (inside : f.InOneBlock i j) : f.InOneBlock j i := by
  obtain ⟨b, mem, first, second⟩ := inside
  exact ⟨b, mem, second, first⟩

/-- Who stands in one block with a member of a block is a member. -/
theorem inOneBlock_iff (mem : b ∈ f.blocks) (member : i ∈ b.members) :
    f.InOneBlock k i ↔ k ∈ b.members := by
  constructor
  · rintro ⟨c, cMem, kMember, iMember⟩
    obtain ⟨n, bFound⟩ := List.mem_iff_getElem?.mp mem
    obtain ⟨m, cFound⟩ := List.mem_iff_getElem?.mp cMem
    obtain rfl := block_eq_of_mem bFound cFound member iMember
    obtain rfl := Option.some.inj (bFound.symm.trans cFound)
    exact kMember
  · exact fun kMember => ⟨b, mem, kMember, member⟩

theorem InOneBlock.trans (first : f.InOneBlock i j) (second : f.InOneBlock j k) :
    f.InOneBlock i k := by
  obtain ⟨b, mem, jMember, kMember⟩ := second
  exact ⟨b, mem, (inOneBlock_iff mem jMember).mp first, kMember⟩

/-- Loads of one location are left alone by the same writers. -/
theorem leavesAlone_of_location? {writer : Nat} (same : f.location? i = f.location? j) :
    f.LeavesAlone oracle i writer ↔ f.LeavesAlone oracle j writer := by
  simp only [LeavesAlone, same]

/-- A reusable instruction changes no memory. -/
theorem leavesAlone_of_key? {load : Nat} (keyed : f.key? i = some key) :
    f.LeavesAlone oracle load i := by
  intro x found writes
  obtain ⟨y, found', keyed⟩ := key?_eq_some.mp keyed
  obtain rfl := Option.some.inj (found.symm.trans found')
  rw [Instruction.mayWrite_of_isReusable (Instruction.isReusable_of_key? keyed)] at writes
  cases writes

/-- An instruction that can stand for a reusable one has its key. -/
theorem StandsFor.exists_key? (stands : f.StandsFor Instruction.isReusable oracle j i)
    (keyed : f.key? i = some key) : f.key? j = some key := by
  obtain ⟨-, ⟨y, yFound, x, xFound, reusable, alike⟩, -⟩ := stands
  obtain ⟨x', found, xKeyed⟩ := key?_eq_some.mp keyed
  obtain rfl := Option.some.inj (xFound.symm.trans found)
  refine key?_eq_some.mpr ⟨y, yFound, ?_⟩
  rw [(Instruction.key?_eq_key?_iff (Instruction.isReusable_of_key? xKeyed) reusable).mpr alike]
  exact xKeyed

/-- A reusable instruction with the key of another, in the same block, can stand for it if the
writes between the two leave it alone. -/
theorem standsFor_of_key? (block : f.InOneBlock j i) (jKeyed : f.key? j = some key)
    (iKeyed : f.key? i = some key)
    (alone : key.opcode.isLoad = true →
      ∀ k < i, j < k → f.InOneBlock k i → f.LeavesAlone oracle j k) :
    f.StandsFor Instruction.isReusable oracle j i := by
  obtain ⟨y, yFound, yKeyed⟩ := key?_eq_some.mp jKeyed
  obtain ⟨x, xFound, xKeyed⟩ := key?_eq_some.mp iKeyed
  have reusable := Instruction.isReusable_of_key? yKeyed
  have alike := (Instruction.key?_eq_key?_iff (Instruction.isReusable_of_key? xKeyed)
    reusable).mp (yKeyed.trans xKeyed.symm)
  refine ⟨block, ⟨y, yFound, x, xFound, reusable, alike⟩, fun load k before behind inside => ?_⟩
  rw [isLoad_of_key? iKeyed] at load
  exact (leavesAlone_of_location? (location?_eq_of_key? iKeyed jKeyed load)).mpr
    (alone load k before behind inside)

/-- What can stand for an instruction that can stand for another can stand for the other. -/
theorem StandsFor.trans (first : f.StandsFor Instruction.isReusable oracle i j)
    (second : f.StandsFor Instruction.isReusable oracle j k)
    (keyed : f.key? k = some key) : f.StandsFor Instruction.isReusable oracle i k := by
  have jKeyed := second.exists_key? keyed
  have iKeyed := first.exists_key? jKeyed
  refine standsFor_of_key? (first.1.trans second.1) iKeyed keyed
    fun load l before behind inside => ?_
  have loads := isLoad_of_key? jKeyed
  have loads' := isLoad_of_key? keyed
  rw [load] at loads loads'
  -- a write stands before the one in the middle, is it, or stands behind it
  rcases Nat.lt_trichotomy l j with lt | rfl | gt
  · refine (leavesAlone_of_location? (location?_eq_of_key? iKeyed jKeyed load)).mpr ?_
    exact first.2.2 loads l lt behind (inside.trans second.1.symm)
  · exact leavesAlone_of_key? jKeyed
  · refine (leavesAlone_of_location? (location?_eq_of_key? iKeyed keyed load)).mpr ?_
    exact second.2.2 loads' l before gt inside

/-- A leader leads itself. -/
theorem leader_leader (keyed : f.key? i = some key) :
    f.leader Instruction.isReusable oracle (f.leader Instruction.isReusable oracle i) =
      f.leader Instruction.isReusable oracle i := by
  by_contra other
  have ne : f.leader Instruction.isReusable oracle i ≠ i := fun same => other (by rw [same, same])
  have stands := standsFor_leader ne
  have further := (standsFor_leader other).trans stands keyed
  have least := leader_le_of_standsFor (any_isReusable_of_key? keyed) further
  have le := f.leader_le Instruction.isReusable oracle (f.leader Instruction.isReusable oracle i)
  omega

end Keys

end Func

end BlockReuse
