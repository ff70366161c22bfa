import BlockReuse.Proofs.Numbering

/-!
# Numbered scans — without forward references, a pass replaces results by their leaders

A scan that has come to an instruction has made of the function what numbering makes of it up to
there, and its table holds the leaders of the block whose loads no write has ended
(`Straight.run_eq_stage`). A key is found in the table exactly if the instruction at hand has
another leader, and what is found is that leader: a leader leads itself, so it is in the table, and
what is in the table can stand for the instruction. Users of the instruction come later, so moving
its uses keys nothing again. One step is one more leader, and a pass is all of them.
-/

set_option autoImplicit false

namespace BlockReuse

/-! ## Moves that meet no scanned user -/

/-- Users that were not scanned are not keyed again. -/
theorem foldl_rekey_of_unscanned (f : Func) {scanned users : List Nat}
    (unscanned : ∀ user ∈ users, user ∉ scanned)
    (state : ExpressionTable × List (Redirection scanned)) :
    users.foldl (rekey f scanned) state = state := by
  induction users with
  | nil => rfl
  | cons user users ih =>
    have skipped : rekey f scanned state user = state := by
      simp only [rekey, if_neg (unscanned user List.mem_cons_self)]
    rw [List.foldl_cons, skipped]
    exact ih fun other mem => unscanned other (List.mem_cons_of_mem _ mem)

/-- A redirection whose users were not scanned moves them and leaves the table. -/
theorem settle_of_unscanned {f : Func} (table : ExpressionTable) {scanned : List Nat}
    (r : Redirection scanned) (unscanned : ∀ user ∈ f.usersOf r.source, user ∉ scanned) :
    settle f table scanned [r] =
      ⟨f.redirectUses r.source (.inst r.target), table,
        [.redirected r.source r.target (f.usersOf r.source)]⟩ := by
  rw [settle]
  simp only [foldl_rekey_of_unscanned _ unscanned]
  rw [settle]

/-! ## The table of leaders -/

/-- What the table is to hold when some members of a block were scanned: those that lead themselves,
under their keys, except the loads that a scanned writer behind them may have changed. -/
structure Entry.Live (g : Func) (oracle : Oracle) (scanned : List Nat) (e : Entry) : Prop where
  mem : e.representative ∈ scanned
  leads : g.leader Instruction.isReusable oracle e.representative = e.representative
  keyed : g.key? e.representative = some e.key
  alone : e.key.opcode.isLoad = true → ∀ writer ∈ scanned, e.representative < writer →
    g.LeavesAlone oracle e.representative writer

/-- An entry outlives an instruction, if that may write, exactly if it leaves its load alone. The
function at hand need only agree with `g` on the representative. -/
theorem outlives_iff {g h : Func} {oracle : Oracle} {writer : Nat} {x : Instruction Value}
    {e : Entry} (same : h.instruction? e.representative = g.instruction? e.representative)
    (keyed : g.key? e.representative = some e.key) (found : g.instruction? writer = some x) :
    (x.mayWrite = true → outlives h oracle x e = true) ↔
      (e.key.opcode.isLoad = true → g.LeavesAlone oracle e.representative writer) := by
  have there : outlives h oracle x e = outlives g oracle x e := by
    simp only [outlives, Entry.readsMemory, clobberQuery?, same]
  rw [there]
  constructor
  · intro kept load y yFound writes
    obtain rfl := Option.some.inj (found.symm.trans yFound)
    obtain ⟨stores, loaded, stored, loadedAt, storedAt, apart, -⟩ :=
      exists_locations_of_outlives keyed load (kept writes)
    exact ⟨stores, loaded, stored, loadedAt, by rw [Func.location?, found]; exact storedAt, apart⟩
  · intro alone writes
    exact outlives_of_leavesAlone keyed found fun load => alone load x found writes

section Live

variable {f g : Func} {oracle : Oracle} {b : Block} {done : List Nat} {n : Nat} {e : Entry}
  {key : ExpressionKey} {x : Instruction Value}

/-- One more member: the entries that it does not end, and its own if it leads itself. -/
theorem live_append_iff (before : ∀ k ∈ done, k < n) :
    e.Live g oracle (done ++ [n]) ↔
      (e.Live g oracle done ∧
        (e.key.opcode.isLoad = true → g.LeavesAlone oracle e.representative n)) ∨
      (e.representative = n ∧ g.leader Instruction.isReusable oracle n = n ∧
        g.key? n = some e.key) := by
  constructor
  · rintro ⟨mem, leads, keyed, alone⟩
    rcases List.mem_append.mp mem with mem | last
    · refine .inl ⟨⟨mem, leads, keyed, fun load writer inside => ?_⟩, fun load => ?_⟩
      · exact alone load writer (List.mem_append_left _ inside)
      · exact alone load n (by simp) (before _ mem)
    · obtain rfl := List.mem_singleton.mp last
      exact .inr ⟨rfl, leads, keyed⟩
  · rintro (⟨⟨mem, leads, keyed, alone⟩, last⟩ | ⟨rfl, leads, keyed⟩)
    · refine ⟨List.mem_append_left _ mem, leads, keyed, fun load writer inside later => ?_⟩
      rcases List.mem_append.mp inside with inside | inside
      · exact alone load writer inside later
      · obtain rfl := List.mem_singleton.mp inside
        exact last load
    · refine ⟨by simp, leads, keyed, fun _ writer inside later => ?_⟩
      rcases List.mem_append.mp inside with inside | inside
      · have := before writer inside
        omega
      · have := List.mem_singleton.mp inside
        omega

/-- What was scanned of a block are the members before the next one. -/
theorem Func.Straight.mem_done_iff (straight : f.Straight) (mem : b ∈ f.blocks)
    (inBlock : done ++ [n] <+: b.members) {k : Nat} : k ∈ done ↔ k ∈ b.members ∧ k < n := by
  obtain ⟨rest, members⟩ := inBlock
  have sorted : b.members.Pairwise (· < ·) := by
    have all : (f.blocks.flatMap Block.members).Pairwise (· < ·) := by
      rw [straight.inOrder]
      exact List.pairwise_lt_range
    exact (List.pairwise_flatMap.mp all).1 b mem
  rw [← members, List.append_assoc, List.pairwise_append] at sorted
  obtain ⟨-, tail, across⟩ := sorted
  rw [← members]
  constructor
  · intro inside
    exact ⟨by simp [inside], across k inside n (by simp)⟩
  · rintro ⟨inside, lt⟩
    simp only [List.append_assoc, List.mem_append, List.mem_cons, List.singleton_append] at inside
    rcases inside with inside | rfl | inside
    · exact inside
    · omega
    · have := List.rel_of_pairwise_cons tail inside
      omega

/-- The leader of the next member, if it is another, is in the table under the member's key. -/
theorem Func.Straight.live_leader (straight : f.Straight) (same : g.blocks = f.blocks)
    (mem : b ∈ f.blocks) (inBlock : done ++ [n] <+: b.members) (keyed : g.key? n = some key)
    (other : g.leader Instruction.isReusable oracle n ≠ n) :
    Entry.Live g oracle done ⟨key, g.leader Instruction.isReusable oracle n⟩ := by
  have stands := Func.standsFor_leader other
  have lt := Nat.lt_of_le_of_ne (g.leader_le Instruction.isReusable oracle n) other
  have member : n ∈ b.members := inBlock.subset (by simp)
  have inBlocks : ∀ k, g.InOneBlock k n ↔ k ∈ b.members :=
    fun k => Func.inOneBlock_iff (same ▸ mem) member
  have leaderKey := stands.exists_key? keyed
  refine ⟨(straight.mem_done_iff mem inBlock).mpr ⟨(inBlocks _).mp stands.1, lt⟩,
    Func.leader_leader keyed, leaderKey, fun load writer inside later => ?_⟩
  obtain ⟨writerMem, before⟩ := (straight.mem_done_iff mem inBlock).mp inside
  have isLoad := Func.isLoad_of_key? keyed
  rw [load] at isLoad
  refine (Func.leavesAlone_of_location? (Func.location?_eq_of_key? leaderKey keyed load)).mpr ?_
  exact stands.2.2 isLoad writer before later ((inBlocks writer).mpr writerMem)

/-- What is in the table under the next member's key can stand for the member. -/
theorem Func.Straight.standsFor_of_live (straight : f.Straight) (same : g.blocks = f.blocks)
    (mem : b ∈ f.blocks) (inBlock : done ++ [n] <+: b.members) (keyed : g.key? n = some e.key)
    (live : e.Live g oracle done) :
    g.StandsFor Instruction.isReusable oracle e.representative n := by
  have member : n ∈ b.members := inBlock.subset (by simp)
  have inBlocks : ∀ k, g.InOneBlock k n ↔ k ∈ b.members :=
    fun k => Func.inOneBlock_iff (same ▸ mem) member
  have seen := (straight.mem_done_iff mem inBlock).mp live.mem
  refine Func.standsFor_of_key? ((inBlocks _).mpr seen.1) live.keyed keyed ?_
  intro load writer before later inside
  exact live.alone load writer
    ((straight.mem_done_iff mem inBlock).mpr ⟨(inBlocks writer).mp inside, before⟩) later

end Live

/-! ## A scan and a pass -/

section Pass

variable {f : Func} {oracle : Oracle} {b : Block} {block n : Nat} {done : List Nat}

/-- A write ends the entries that do not outlive it, and no others. -/
theorem Scan.mem_passWrite_iff {s : Scan} {x : Instruction Value} {e : Entry} :
    e ∈ (s.passWrite oracle block n x).table.entries ↔
      e ∈ s.table.entries ∧ (x.mayWrite = true → outlives s.func oracle x e = true) := by
  refine ⟨mem_passWrite, fun ⟨mem, kept⟩ => ?_⟩
  unfold passWrite
  split
  · next writes => exact ExpressionTable.mem_retain.mpr ⟨mem, kept writes⟩
  · exact mem

theorem Scan.func_passWrite (s : Scan) (oracle : Oracle) (block n : Nat) (x : Instruction Value) :
    (s.passWrite oracle block n x).func = s.func := by
  unfold passWrite
  split <;> rfl

/-- What holds of a scan of a block that comes to the instruction `n`: the results before it are
replaced by their leaders, and the table holds the leaders that are live. -/
structure Scan.Numbered (f : Func) (oracle : Oracle) (n : Nat) (s : Scan) : Prop where
  func : s.func = f.stage Instruction.isReusable oracle n
  entries : ∀ e, e ∈ s.table.entries ↔ e.Live (f.numbered oracle) oracle s.scanned

/-- One step of a scan is one more leader. -/
theorem Func.Straight.numbered_step (straight : f.Straight) (mem : b ∈ f.blocks)
    (inBlock : done ++ [n] <+: b.members) {s next : Scan} (scanned : s.scanned = done)
    (numbered : s.Numbered f oracle n) {x : Instruction Value}
    (found : s.func.instruction? n = some x) (stepped : Scan.Stepped oracle block s n x next) :
    next.Numbered f oracle (n + 1) := by
  have inside : n ≤ f.instructions.length := by
    have placed : n ∈ f.blocks.flatMap Block.members :=
      List.mem_flatMap.mpr ⟨b, mem, inBlock.subset (by simp)⟩
    rw [straight.inOrder] at placed
    exact Nat.le_of_lt (List.mem_range.mp placed)
  have before : ∀ k ∈ done, k < n := fun k seen => ((straight.mem_done_iff mem inBlock).mp seen).2
  -- what the scan sees up to here is what the numbered function has
  have seen : ∀ k ≤ n, s.func.instruction? k = (f.numbered oracle).instruction? k := by
    intro k le
    rw [numbered.func]
    exact straight.instruction?_numbered le inside
  have leads : (f.stage Instruction.isReusable oracle n).leader Instruction.isReusable oracle n =
      (f.numbered oracle).leader Instruction.isReusable oracle n := straight.leader_stage inside
  have blocks : (f.numbered oracle).blocks = f.blocks := rfl
  have entries := numbered.entries
  rw [seen n (Nat.le_refl n)] at found
  rw [scanned] at entries
  cases stepped with
  | passed unkeyed =>
    have self : (f.numbered oracle).leader Instruction.isReusable oracle n = n :=
      Func.leader_of_not_reusable (Func.any_isReusable_of_key?_none found unkeyed)
    have noKey : ∀ key, (f.numbered oracle).key? n ≠ some key := by
      intro key keyed
      rw [Func.key?, found, Option.bind_some, unkeyed] at keyed
      cases keyed
    refine ⟨?_, fun e => ?_⟩
    · rw [Func.stage_succ_of_leader (leads.trans self), ← numbered.func]
      exact Scan.func_passWrite ..
    · simp only [Scan.visit, Scan.scanned_passWrite, scanned, live_append_iff before,
        Scan.mem_passWrite_iff, entries, noKey, and_false, or_false]
      refine and_congr_right fun live => ?_
      exact outlives_iff (seen _ (Nat.le_of_lt (before _ live.mem))) live.keyed found
  | @fresh key keyed missing =>
    have nKeyed : (f.numbered oracle).key? n = some key := Func.key?_eq_some.mpr ⟨x, found, keyed⟩
    have self : (f.numbered oracle).leader Instruction.isReusable oracle n = n := by
      by_contra other
      have live := straight.live_leader blocks mem inBlock nKeyed other
      exact absurd rfl (ExpressionTable.find?_eq_none.mp missing _ ((entries _).mpr live))
    refine ⟨?_, fun e => ?_⟩
    · rw [Func.stage_succ_of_leader (leads.trans self), ← numbered.func]
    · simp only [scanned, live_append_iff before, ExpressionTable.mem_insert]
      constructor
      · rintro (rfl | ⟨old, -⟩)
        · exact .inr ⟨rfl, self, nKeyed⟩
        · exact .inl ⟨(entries e).mp old, fun _ => Func.leavesAlone_of_key? nKeyed⟩
      · rintro (⟨live, -⟩ | ⟨rfl, -, eKeyed⟩)
        · have old := (entries e).mpr live
          exact .inr ⟨old, ExpressionTable.find?_eq_none.mp missing e old⟩
        · obtain rfl := Option.some.inj (nKeyed.symm.trans eKeyed)
          exact .inl rfl
  | @repeated key representative keyed hit earlier =>
    have nKeyed : (f.numbered oracle).key? n = some key := Func.key?_eq_some.mpr ⟨x, found, keyed⟩
    have live := (entries _).mp (ExpressionTable.find?_eq_some.mp hit)
    have stands := straight.standsFor_of_live blocks mem inBlock nKeyed live
    have least := Func.leader_le_of_standsFor (Func.any_isReusable_of_key? nKeyed) stands
    have lt : representative < n := before _ live.mem
    have other : (f.numbered oracle).leader Instruction.isReusable oracle n ≠ n := by
      simp only at least
      omega
    have same : (f.numbered oracle).leader Instruction.isReusable oracle n = representative := by
      have leader := (entries _).mpr (straight.live_leader blocks mem inBlock nKeyed other)
      exact Option.some.inj ((ExpressionTable.find?_eq_some.mpr leader).symm.trans hit)
    have unscanned : ∀ user ∈ s.func.usersOf n, user ∉ s.scanned ++ [n] := by
      intro user uses
      rw [numbered.func] at uses
      have later := straight.lt_of_mem_usersOf uses
      rw [scanned]
      intro passed
      rcases List.mem_append.mp passed with passed | passed
      · have := before user passed
        omega
      · have := List.mem_singleton.mp passed
        omega
    rw [settle_of_unscanned _ ⟨n, representative, earlier⟩ unscanned]
    refine ⟨?_, fun e => ?_⟩
    · rw [Func.stage_succ, leads, same, ← numbered.func]
      rfl
    · simp only [scanned, live_append_iff before, entries, other, false_and, and_false, or_false]
      exact (and_iff_left fun _ => Func.leavesAlone_of_key? nKeyed).symm

/-- A scan of a block whose first member is `first` numbers its members one by one. -/
theorem Func.Straight.numbered_run (straight : f.Straight) (oracle : Oracle) (block : Nat)
    (mem : b ∈ f.blocks) {first count : Nat} (members : b.members = List.range' first count)
    (inBlock : done <+: b.members) :
    (Scan.run oracle block (f.stage Instruction.isReusable oracle first) done).Numbered f oracle
      (first + done.length) := by
  induction done using List.reverseRecOn with
  | nil =>
    refine ⟨rfl, fun e => ?_⟩
    constructor
    · intro mem
      cases mem
    · intro live
      exact absurd live.mem List.not_mem_nil
  | append_singleton done n ih =>
    have numbered := ih ((List.prefix_append done [n]).trans inBlock)
    have next : n = first + done.length := by
      obtain ⟨rest, whole⟩ := inBlock
      rw [members, List.append_assoc] at whole
      obtain ⟨k, -, rfl, tail⟩ := List.range'_eq_append_iff.mp whole.symm
      obtain ⟨same, -⟩ := List.range'_eq_cons_iff.mp tail.symm
      simp [← same]
    obtain ⟨x, found, stepped⟩ := Scan.stepped_run
      (f := f.stage Instruction.isReusable oracle first) mem oracle block inBlock
    rw [List.length_append, List.length_singleton, ← Nat.add_assoc, ← next]
    rw [← next] at numbered
    exact straight.numbered_step mem inBlock (Scan.scanned_run ..) numbered found stepped

/-- A pass over consecutive blocks numbers their members. -/
theorem Func.Straight.func_reuseBlocks (straight : f.Straight) (oracle : Oracle)
    {blocks : List (Block × Nat)} (inside : ∀ p ∈ blocks, p.1 ∈ f.blocks) {first count : Nat}
    (members : blocks.flatMap (fun p => p.1.members) = List.range' first count) (o : Outcome)
    (func : o.func = f.stage Instruction.isReusable oracle first) :
    (reuseBlocks oracle o blocks).func = f.stage Instruction.isReusable oracle (first + count) := by
  induction blocks generalizing first count o with
  | nil =>
    have none : count = 0 := by simpa using (congrArg List.length members).symm
    rw [none]
    exact func
  | cons next blocks ih =>
    obtain ⟨b, block⟩ := next
    rw [List.flatMap_cons] at members
    obtain ⟨k, le, bMembers, rest⟩ := List.range'_eq_append_iff.mp members.symm
    rw [Nat.mul_one] at rest
    have scan := straight.numbered_run oracle block (inside _ List.mem_cons_self) bMembers
      (List.prefix_refl _)
    have length : b.members.length = k := by rw [bMembers, List.length_range']
    rw [length] at scan
    have after := ih (fun p mem => inside p (List.mem_cons_of_mem _ mem)) rest
      ⟨(reuseMembers oracle o.func block b.members).func,
        o.events ++ (reuseMembers oracle o.func block b.members).events⟩
      (by rw [func]; exact scan.func)
    rw [Nat.add_assoc, Nat.add_sub_cancel' le] at after
    exact after

/-- A pass makes the numbered function. -/
theorem Func.Straight.func_reuse (straight : f.Straight) (oracle : Oracle) :
    (reuse oracle f).func = f.numbered oracle := by
  have members : f.blocks.zipIdx.flatMap (fun p => p.1.members) =
      List.range' 0 f.instructions.length := by
    rw [← List.range_eq_range', ← straight.inOrder, ← List.flatMap_map Prod.fst Block.members,
      List.zipIdx_map_fst]
  have start : f.stage Instruction.isReusable oracle 0 = f := by
    refine (Func.mapOperands_congr fun v _ => ?_).trans f.mapOperands_id
    cases v <;> rfl
  have pass := straight.func_reuseBlocks oracle (fun p mem => List.fst_mem_of_mem_zipIdx mem)
    members ⟨f, []⟩ start.symm
  rw [Nat.zero_add] at pass
  exact pass

/-- A pass over a function without forward references replaces every result by that of its leader:
the least reusable instruction of its block that computes the same on the same leaders, where a load
must be left alone by every write in between. -/
theorem reuse_eq_mapOperands_canon (straight : f.Straight) (oracle : Oracle) :
    (∀ i < f.instructions.length, f.canon Instruction.isReusable oracle (.inst i) =
      .inst ((f.mapOperands (f.canon Instruction.isReusable oracle)).leader
        Instruction.isReusable oracle i)) ∧
    (reuse oracle f).func = f.mapOperands (f.canon Instruction.isReusable oracle) :=
  ⟨fun _ inside => straight.canon_inst inside, straight.func_reuse oracle⟩

/-- The second address is led by the first, so the second load is led by the first across a store to
another pointer, and the pass moves the uses of both. -/
theorem reuse_eq_canon_loadsAcrossStore :
    loadsAcrossStore.Straight ∧
    loadsAcrossStore.leaders Instruction.isReusable .byPointer 6 = [0, 0, 2, 3, 2, 5] ∧
    (reuse .byPointer loadsAcrossStore).func =
      loadsAcrossStore.mapOperands (loadsAcrossStore.canon Instruction.isReusable .byPointer) :=
  ⟨by decide +kernel, by decide +kernel, (reuse_eq_mapOperands_canon (by decide +kernel) _).2⟩

/-- A volatile load, and a plain one of the same type and pointer behind it. -/
def volatileLoad : Func where
  name := "f"
  arguments := ["p"]
  globals := []
  definitions :=
    [⟨.load (.int 32) (.argument 0) true, some "a"⟩,
      ⟨.load (.int 32) (.argument 0) false, some "b"⟩, ⟨.ret (some (.inst 1)), none⟩]
  blocks := [⟨"entry", [0, 1, 2]⟩]
  placed := by decide

/-- If any instruction could lead others, the volatile load would lead the plain one, whose opcode
and pointer it has, with nothing between the two; the pass does not move the uses there. -/
theorem reuse_ne_canon_volatileLoad :
    volatileLoad.Straight ∧
    volatileLoad.canon (fun _ => true) .conservative (.inst 1) = .inst 0 ∧
    (reuse .conservative volatileLoad).func ≠
      volatileLoad.mapOperands (volatileLoad.canon (fun _ => true) .conservative) :=
  ⟨by decide +kernel, by decide +kernel, by decide +kernel⟩

end Pass

end BlockReuse
