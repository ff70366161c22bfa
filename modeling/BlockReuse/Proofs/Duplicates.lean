import BlockReuse.Proofs.LoadMerging
import BlockReuse.Source.Reading

/-!
# Duplicates — a pass changes a function exactly if a live duplicate is in it

A duplicate is a member that has the key of an earlier member of its block; if the two are loads,
then nothing between them may have changed what they read. It is live if it has a use. This says
nothing of tables and moves: it can be read off the function (`Func.Duplicate`).

A pass over a function without live duplicates finds the duplicates that have no use and moves
nothing; and a pass that moves nothing has looked at the same function all along, so it would have
found every live duplicate (`modified_reuse_eq_false_iff`).

One pass need not leave a function without live duplicates. A move in one block can make two members
of a block scanned before it equal, and only a second pass sees that (`crossingPhis`).
-/

set_option autoImplicit false

namespace BlockReuse

/-! ## Duplicates of a function -/

/-- If `writer` may write, then it is a store the oracle puts apart from `load`. -/
def Func.LeavesAlone (f : Func) (oracle : Oracle) (load writer : Nat) : Prop :=
  ∀ x, f.instruction? writer = some x → x.mayWrite = true →
    x.isStore = true ∧ ∃ loaded stored,
      f.location? load = some loaded ∧ f.location? writer = some stored ∧
        oracle loaded stored = .no

/-- `later` repeats `earlier` in the block `b`. -/
def Func.Duplicate (f : Func) (oracle : Oracle) (b : Block) (later earlier : Nat) : Prop :=
  ∃ before between rest key, b.members = before ++ earlier :: between ++ later :: rest ∧
    f.key? earlier = some key ∧ f.key? later = some key ∧
    (key.opcode.isLoad = true → ∀ writer ∈ between, f.LeavesAlone oracle earlier writer)

/-- Some duplicate has a use. -/
def Func.HasLiveDuplicate (f : Func) (oracle : Oracle) : Prop :=
  ∃ b ∈ f.blocks, ∃ later earlier, f.Duplicate oracle b later earlier ∧ f.usersOf later ≠ []

/-! ## Reports of no change -/

/-- Every redirection among the events found no use to move. -/
def Quiet (events : List Event) : Prop :=
  ∀ source target users, .redirected source target users ∈ events → users = []

theorem quiet_nil : Quiet [] := fun _ _ _ mem => by cases mem

theorem quiet_append {first second : List Event} :
    Quiet (first ++ second) ↔ Quiet first ∧ Quiet second := by
  constructor
  · intro quiet
    exact ⟨fun s t u mem => quiet s t u (List.mem_append_left _ mem),
      fun s t u mem => quiet s t u (List.mem_append_right _ mem)⟩
  · rintro ⟨first, second⟩ s t u mem
    rcases List.mem_append.mp mem with mem | mem
    · exact first s t u mem
    · exact second s t u mem

/-- A pass says that it changed nothing exactly if its reports are quiet. -/
theorem Outcome.modified_eq_false_iff {o : Outcome} : o.modified = false ↔ Quiet o.events := by
  rw [modified, List.any_eq_false]
  constructor
  · intro unchanged source target users mem
    simpa using unchanged _ mem
  · intro quiet event mem
    cases event with
    | redirected source target users => simpa using quiet source target users mem
    | memoryWritten writer block removed queries => simp
    | newExpression index => simp

/-- A redirection that is worked off quietly finds no use. -/
theorem usersOf_of_quiet {f : Func} {table : ExpressionTable} {scanned : List Nat}
    (r : Redirection scanned) (quiet : Quiet (settle f table scanned [r]).events) :
    f.usersOf r.source = [] := by
  refine quiet r.source r.target _ ?_
  rw [settle]
  exact List.mem_cons_self

/-- Working off a redirection that finds no use changes neither function nor table. -/
theorem settle_of_unused {f : Func} {table : ExpressionTable} {scanned : List Nat}
    (r : Redirection scanned) (unused : f.usersOf r.source = []) :
    settle f table scanned [r] = ⟨f, table, [.redirected r.source r.target []]⟩ := by
  rw [settle, unused, Func.redirectUses_eq_self unused]
  simp only [List.foldl_nil]
  rw [settle]

/-! ## Entries that outlive a write -/

/-- Loads that have one key have one location. -/
theorem Func.location?_eq_of_key? {f : Func} {i j : Nat} {key : ExpressionKey}
    (iKeyed : f.key? i = some key) (jKeyed : f.key? j = some key)
    (load : key.opcode.isLoad = true) : f.location? i = f.location? j := by
  obtain ⟨x, iFound, xKeyed⟩ := Func.key?_eq_some.mp iKeyed
  obtain ⟨y, jFound, yKeyed⟩ := Func.key?_eq_some.mp jKeyed
  obtain ⟨type, pointer, rfl⟩ := Instruction.exists_load_of_key? xKeyed load
  obtain rfl := Instruction.load_eq_of_key? xKeyed yKeyed
  rw [location?, location?, iFound, jFound]

/-- An entry outlives a write unless it is a load that the writer is not known to leave alone. -/
theorem outlives_of_leavesAlone {f : Func} {oracle : Oracle} {writer : Nat} {x : Instruction Value}
    {e : Entry} (keyed : f.key? e.representative = some e.key)
    (found : f.instruction? writer = some x)
    (apart : e.key.opcode.isLoad = true → x.isStore = true ∧ ∃ loaded stored,
      f.location? e.representative = some loaded ∧ f.location? writer = some stored ∧
        oracle loaded stored = .no) :
    outlives f oracle x e = true := by
  obtain ⟨y, yFound, yKeyed⟩ := Func.key?_eq_some.mp keyed
  have reads : e.readsMemory f = e.key.opcode.isLoad := by
    rw [Entry.readsMemory, yFound, Option.any_some, Instruction.mayRead_of_key? yKeyed]
  rw [outlives, reads]
  cases load : e.key.opcode.isLoad with
  | false => rfl
  | true =>
    obtain ⟨stores, loaded, stored, loadedAt, storedAt, no⟩ := apart load
    have isLoad : y.isLoad = true := by rw [Instruction.isLoad_of_key? yKeyed, load]
    rw [Func.location?, yFound, Option.bind_some] at loadedAt
    rw [Func.location?, found, Option.bind_some] at storedAt
    have asked : clobberQuery? f x e = some (loaded, stored) := by
      rw [clobberQuery?, yFound, Option.bind_some, Instruction.loadLocation?, if_pos isLoad,
        Instruction.storeLocation?, if_pos stores, loadedAt, storedAt]
    rw [asked, Option.any_some]
    exact decide_eq_true no

/-! ## A scan that moves nothing -/

section Scan

variable {oracle : Oracle} {f : Func} {block : Nat} {b : Block}

/-- A quiet scan leaves the function as it was. -/
theorem func_run_of_quiet (mem : b ∈ f.blocks) {done : List Nat} (inBlock : done <+: b.members)
    (quiet : Quiet (Scan.run oracle block f done).events) :
    (Scan.run oracle block f done).func = f := by
  induction done using List.reverseRecOn with
  | nil => rfl
  | append_singleton done index ih =>
    have before := (List.prefix_append done [index]).trans inBlock
    obtain ⟨x, found, stepped⟩ := Scan.stepped_run mem oracle block inBlock
    generalize Scan.run oracle block f (done ++ [index]) = next at stepped quiet ⊢
    cases stepped with
    | passed unkeyed =>
      obtain ⟨keep, report, passed, -⟩ := Scan.exists_passWrite
        (Scan.run oracle block f done) oracle block index x
      rw [passed] at quiet ⊢
      exact ih before (quiet_append.mp quiet).1
    | fresh keyed missing => exact ih before (quiet_append.mp quiet).1
    | @repeated key representative keyed hit earlier =>
      have same := ih before (quiet_append.mp quiet).1
      have unused := usersOf_of_quiet ⟨index, representative, earlier⟩ (quiet_append.mp quiet).2
      rw [settle_of_unused _ unused]
      exact same

/-- What a quiet scan has reported stays quiet when it is cut short. -/
theorem quiet_run_of_longer {done members : List Nat} (inside : done <+: members)
    (quiet : Quiet (Scan.run oracle block f members).events) :
    Quiet (Scan.run oracle block f done).events := by
  obtain ⟨more, reported⟩ := Scan.prefix_events_run oracle block f inside
  rw [← reported] at quiet
  exact (quiet_append.mp quiet).1

/-- What a step of a quiet scan did to the table: it passed a member that is not reused, it took a
member in, or it came to a duplicate that has no use. -/
theorem table_run_of_quiet (mem : b ∈ f.blocks) {done : List Nat} {index : Nat}
    (inBlock : done ++ [index] <+: b.members)
    (quiet : Quiet (Scan.run oracle block f (done ++ [index])).events) :
    (∃ x, f.instruction? index = some x ∧ x.key? = none ∧
      (Scan.run oracle block f (done ++ [index])).table =
        if x.mayWrite then (Scan.run oracle block f done).table.retain (outlives f oracle x)
        else (Scan.run oracle block f done).table) ∨
    (∃ key, f.key? index = some key ∧ (Scan.run oracle block f done).table.find? key = none ∧
      (Scan.run oracle block f (done ++ [index])).table =
        (Scan.run oracle block f done).table.insert key index) ∨
    (∃ key representative, f.key? index = some key ∧
      (Scan.run oracle block f done).table.find? key = some representative ∧
      f.usersOf index = [] ∧
      (Scan.run oracle block f (done ++ [index])).table =
        (Scan.run oracle block f done).table) := by
  have before := (List.prefix_append done [index]).trans inBlock
  have same := func_run_of_quiet mem before (quiet_run_of_longer (List.prefix_append _ _) quiet)
  obtain ⟨x, found, stepped⟩ := Scan.stepped_run mem oracle block inBlock
  generalize Scan.run oracle block f (done ++ [index]) = next at stepped quiet ⊢
  cases stepped with
  | passed unkeyed =>
    refine .inl ⟨x, same ▸ found, unkeyed, ?_⟩
    unfold Scan.passWrite Scan.visit
    split
    · rw [same]
      rfl
    · rfl
  | fresh keyed missing =>
    exact .inr (.inl ⟨_, Func.key?_eq_some.mpr ⟨x, same ▸ found, keyed⟩, missing, rfl⟩)
  | @repeated key representative keyed hit earlier =>
    have unused := usersOf_of_quiet ⟨index, representative, earlier⟩ (quiet_append.mp quiet).2
    refine .inr (.inr ⟨key, representative, Func.key?_eq_some.mpr ⟨x, same ▸ found, keyed⟩, hit,
      same ▸ unused, ?_⟩)
    rw [settle_of_unused _ unused]

/-- In a quiet scan, a member that has the key of an entry is a duplicate of its representative. -/
theorem duplicate_of_mem (mem : b ∈ f.blocks) {done rest : List Nat} {later earlier : Nat}
    {key : ExpressionKey} (members : b.members = done ++ later :: rest)
    (quiet : Quiet (Scan.run oracle block f done).events) (keyed : f.key? later = some key)
    (entry : ⟨key, earlier⟩ ∈ (Scan.run oracle block f done).table.entries) :
    f.Duplicate oracle b later earlier := by
  have inBlock : done <+: b.members := ⟨later :: rest, members.symm⟩
  have consistent := Scan.consistent_run mem oracle block inBlock
  obtain ⟨seen, earlierKey⟩ := consistent.current _ entry
  rw [func_run_of_quiet mem inBlock quiet] at earlierKey
  rw [Scan.scanned_run] at seen
  by_cases load : key.opcode.isLoad = true
  · obtain ⟨before, between, rfl, apart⟩ := exists_between (unharmed_run mem inBlock _ entry load)
    refine ⟨before, between, rest, key, by rw [members], earlierKey, keyed, ?_⟩
    intro _ writer inside x found writes
    obtain ⟨first, last, rfl⟩ := List.append_of_mem inside
    have cut : before ++ earlier :: first <+: before ++ earlier :: (first ++ writer :: last) :=
      ⟨writer :: last, by simp⟩
    -- the oracle was asked about the same function
    have unmoved := func_run_of_quiet mem (cut.trans inBlock) (quiet_run_of_longer cut quiet)
    have putApart := apart first writer last rfl x
    rw [unmoved] at putApart
    obtain ⟨stores, loaded, stored, loadedAt, storedAt, no, -⟩ := putApart found writes
    exact ⟨stores, loaded, stored, loadedAt, storedAt, no⟩
  · obtain ⟨before, between, rfl⟩ := List.append_of_mem seen
    exact ⟨before, between, rest, key, members, earlierKey, keyed, fun isLoad => absurd isLoad load⟩

/-- In a quiet scan, a member that was just passed has its key in the table. -/
theorem exists_entry_of_key? (mem : b ∈ f.blocks) {done : List Nat} {index : Nat}
    {key : ExpressionKey} (inBlock : done ++ [index] <+: b.members)
    (quiet : Quiet (Scan.run oracle block f (done ++ [index])).events)
    (keyed : f.key? index = some key) :
    ∃ representative,
      ⟨key, representative⟩ ∈ (Scan.run oracle block f (done ++ [index])).table.entries := by
  rcases table_run_of_quiet mem inBlock quiet with
    ⟨x, found, unkeyed, -⟩ | ⟨other, otherKeyed, -, next⟩ |
    ⟨other, representative, otherKeyed, hit, -, next⟩
  · rw [Func.key?, found, Option.bind_some, unkeyed] at keyed
    cases keyed
  · obtain rfl := Option.some.inj (keyed.symm.trans otherKeyed)
    rw [next]
    exact ⟨index, ExpressionTable.mem_insert.mpr (.inl rfl)⟩
  · obtain rfl := Option.some.inj (keyed.symm.trans otherKeyed)
    rw [next]
    exact ⟨representative, ExpressionTable.find?_eq_some.mp hit⟩

/-- In a quiet scan, a member has its key in the table until a write may change what it read. -/
theorem exists_entry_of_quiet (mem : b ∈ f.blocks) {before between : List Nat} {earlier : Nat}
    {key : ExpressionKey} (inBlock : before ++ earlier :: between <+: b.members)
    (quiet : Quiet (Scan.run oracle block f (before ++ earlier :: between)).events)
    (keyed : f.key? earlier = some key)
    (untouched : key.opcode.isLoad = true →
      ∀ writer ∈ between, f.LeavesAlone oracle earlier writer) :
    ∃ representative,
      ⟨key, representative⟩ ∈
        (Scan.run oracle block f (before ++ earlier :: between)).table.entries := by
  induction between using List.reverseRecOn with
  | nil => exact exists_entry_of_key? mem inBlock quiet keyed
  | append_singleton between index ih =>
    have split : before ++ earlier :: (between ++ [index]) =
        before ++ earlier :: between ++ [index] := by simp
    rw [split] at inBlock quiet ⊢
    have cut := List.prefix_append (before ++ earlier :: between) [index]
    have quietBefore := quiet_run_of_longer cut quiet
    obtain ⟨representative, entry⟩ := ih (cut.trans inBlock) quietBefore
      fun load writer inside => untouched load writer (List.mem_append_left _ inside)
    have current := (Scan.consistent_run mem oracle block (cut.trans inBlock)).current _ entry
    rw [func_run_of_quiet mem (cut.trans inBlock) quietBefore] at current
    rcases table_run_of_quiet mem inBlock quiet with
      ⟨x, found, -, next⟩ | ⟨other, -, -, next⟩ | ⟨other, -, -, -, -, next⟩
    · rw [next]
      refine ⟨representative, ?_⟩
      by_cases writes : x.mayWrite = true
      · rw [if_pos writes]
        refine ExpressionTable.mem_retain.mpr ⟨entry, outlives_of_leavesAlone current.2 found ?_⟩
        intro load
        have alone := untouched load index (by simp)
        obtain ⟨stores, loaded, stored, loadedAt, storedAt, no⟩ := alone x found writes
        rw [Func.location?_eq_of_key? keyed current.2 load] at loadedAt
        exact ⟨stores, loaded, stored, loadedAt, storedAt, no⟩
      · rw [if_neg writes]
        exact entry
    · rw [next]
      by_cases same : key = other
      · exact ⟨index, ExpressionTable.mem_insert.mpr (.inl (by rw [same]))⟩
      · exact ⟨representative, ExpressionTable.mem_insert.mpr (.inr ⟨entry, same⟩)⟩
    · rw [next]
      exact ⟨representative, entry⟩

/-- A scan is quiet as long as it finds only duplicates that have no use. -/
theorem quiet_run_of_unused (mem : b ∈ f.blocks)
    (unused : ∀ later earlier, f.Duplicate oracle b later earlier → f.usersOf later = [])
    {done : List Nat} (inBlock : done <+: b.members) :
    Quiet (Scan.run oracle block f done).events := by
  induction done using List.reverseRecOn with
  | nil => exact quiet_nil
  | append_singleton done index ih =>
    have prior := (List.prefix_append done [index]).trans inBlock
    have quiet := ih prior
    have same := func_run_of_quiet mem prior quiet
    obtain ⟨x, found, stepped⟩ := Scan.stepped_run mem oracle block inBlock
    generalize Scan.run oracle block f (done ++ [index]) = next at stepped ⊢
    cases stepped with
    | passed unkeyed =>
      unfold Scan.passWrite Scan.visit
      split
      · exact quiet_append.mpr ⟨quiet, fun _ _ _ mem => by simp at mem⟩
      · exact quiet
    | fresh keyed missing => exact quiet_append.mpr ⟨quiet, fun _ _ _ mem => by simp at mem⟩
    | @repeated key representative keyed hit earlier =>
      obtain ⟨rest, members⟩ := inBlock
      rw [List.append_assoc, List.singleton_append] at members
      have indexKey := Func.key?_eq_some.mpr ⟨x, same ▸ found, keyed⟩
      have duplicate := duplicate_of_mem mem members.symm quiet indexKey
        (ExpressionTable.find?_eq_some.mp hit)
      have unmoved : (Scan.run oracle block f done).func.usersOf index = [] := by
        rw [same, unused index representative duplicate]
      rw [settle_of_unused _ unmoved]
      refine quiet_append.mpr ⟨quiet, fun source target users mem => ?_⟩
      rw [List.mem_singleton, Event.redirected.injEq] at mem
      exact mem.2.2

/-- A scan is quiet exactly if no duplicate of the block has a use. -/
theorem quiet_run_iff (mem : b ∈ f.blocks) :
    Quiet (Scan.run oracle block f b.members).events ↔
      ∀ later earlier, f.Duplicate oracle b later earlier → f.usersOf later = [] := by
  constructor
  · rintro quiet later earlier ⟨before, between, rest, key, members, earlierKey, laterKey, alone⟩
    have inBlock : before ++ earlier :: between ++ [later] <+: b.members :=
      ⟨rest, by rw [members]; simp⟩
    have cut := List.prefix_append (before ++ earlier :: between) [later]
    have quietAt := quiet_run_of_longer inBlock quiet
    obtain ⟨representative, entry⟩ := exists_entry_of_quiet mem (cut.trans inBlock)
      (quiet_run_of_longer cut quietAt) earlierKey alone
    rcases table_run_of_quiet mem inBlock quietAt with
      ⟨x, found, unkeyed, -⟩ | ⟨other, otherKeyed, missing, -⟩ | ⟨other, -, -, -, unused, -⟩
    · rw [Func.key?, found, Option.bind_some, unkeyed] at laterKey
      cases laterKey
    · obtain rfl := Option.some.inj (laterKey.symm.trans otherKeyed)
      exact absurd rfl (ExpressionTable.find?_eq_none.mp missing _ entry)
    · exact unused
  · intro unused
    exact quiet_run_of_unused mem unused (List.prefix_refl _)

end Scan

/-! ## A pass that moves nothing -/

/-- A pass over blocks of a function is quiet exactly if the scan of each of them is, and then it
leaves the function as it was. -/
theorem quiet_reuseBlocks_iff {oracle : Oracle} {f : Func} {blocks : List (Block × Nat)}
    (inside : ∀ p ∈ blocks, p.1 ∈ f.blocks) {events : List Event} (quiet : Quiet events) :
    (Quiet (reuseBlocks oracle ⟨f, events⟩ blocks).events ↔
      ∀ p ∈ blocks, Quiet (Scan.run oracle p.2 f p.1.members).events) ∧
    (Quiet (reuseBlocks oracle ⟨f, events⟩ blocks).events →
      (reuseBlocks oracle ⟨f, events⟩ blocks).func = f) := by
  induction blocks generalizing events with
  | nil => exact ⟨⟨fun _ _ mem => absurd mem List.not_mem_nil, fun _ => quiet⟩, fun _ => rfl⟩
  | cons first blocks ih =>
    obtain ⟨b, block⟩ := first
    have unfolded : reuseBlocks oracle ⟨f, events⟩ ((b, block) :: blocks) =
        reuseBlocks oracle ⟨(Scan.run oracle block f b.members).func,
          events ++ (Scan.run oracle block f b.members).events⟩ blocks := rfl
    rw [unfolded, List.forall_mem_cons]
    by_cases quietFirst : Quiet (Scan.run oracle block f b.members).events
    · rw [func_run_of_quiet (inside _ List.mem_cons_self) (List.prefix_refl _) quietFirst]
      obtain ⟨rest, same⟩ := ih (fun p mem => inside p (List.mem_cons_of_mem _ mem))
        (quiet_append.mpr ⟨quiet, quietFirst⟩)
      exact ⟨rest.trans (and_iff_right quietFirst).symm, same⟩
    · -- what the first scan reported is still in the report
      have loud : ¬ Quiet (reuseBlocks oracle ⟨(Scan.run oracle block f b.members).func,
          events ++ (Scan.run oracle block f b.members).events⟩ blocks).events := by
        intro quietAll
        obtain ⟨rest, reported⟩ := prefix_events_reuseBlocks oracle
          ⟨(Scan.run oracle block f b.members).func,
            events ++ (Scan.run oracle block f b.members).events⟩ blocks
        rw [← reported] at quietAll
        exact quietFirst (quiet_append.mp (quiet_append.mp quietAll).1).2
      exact ⟨⟨fun quietAll => absurd quietAll loud, fun each => absurd each.1 quietFirst⟩,
        fun quietAll => absurd quietAll loud⟩

/-- A pass says that it changed nothing exactly if the function has no live duplicate. -/
theorem modified_reuse_eq_false_iff (oracle : Oracle) (f : Func) :
    (reuse oracle f).modified = false ↔ ¬ f.HasLiveDuplicate oracle := by
  have inside : ∀ p ∈ f.blocks.zipIdx, p.1 ∈ f.blocks := fun p => List.fst_mem_of_mem_zipIdx
  rw [Outcome.modified_eq_false_iff, reuse_eq_reuseBlocks,
    (quiet_reuseBlocks_iff inside quiet_nil).1]
  constructor
  · rintro quiet ⟨b, mem, later, earlier, duplicate, used⟩
    obtain ⟨block, found⟩ := List.mem_iff_getElem?.mp mem
    have quietBlock := quiet (b, block) (List.mem_zipIdx_iff_getElem?.mpr found)
    exact used ((quiet_run_iff mem).mp quietBlock later earlier duplicate)
  · rintro settled ⟨b, block⟩ mem
    refine (quiet_run_iff (inside _ mem)).mpr fun later earlier duplicate => ?_
    by_contra used
    exact settled ⟨b, inside _ mem, later, earlier, duplicate, used⟩

/-- A pass that says that it changed nothing did not. -/
theorem func_reuse_of_modified_eq_false {oracle : Oracle} {f : Func}
    (unchanged : (reuse oracle f).modified = false) : (reuse oracle f).func = f := by
  have inside : ∀ p ∈ f.blocks.zipIdx, p.1 ∈ f.blocks := fun p => List.fst_mem_of_mem_zipIdx
  exact (quiet_reuseBlocks_iff inside quiet_nil).2 (Outcome.modified_eq_false_iff.mp unchanged)

/-- A second pass says that it changed nothing, and changes nothing, exactly if the first left no
live duplicate. -/
theorem second_reuse_silent_iff (oracle : Oracle) (f : Func) :
    ((reuse oracle (reuse oracle f).func).modified = false ∧
      (reuse oracle (reuse oracle f).func).func = (reuse oracle f).func) ↔
    ¬ (reuse oracle f).func.HasLiveDuplicate oracle := by
  rw [← modified_reuse_eq_false_iff]
  constructor
  · rintro ⟨unchanged, -⟩
    exact unchanged
  · intro unchanged
    exact ⟨unchanged, func_reuse_of_modified_eq_false unchanged⟩

/-- Two blocks in a loop: the first has two phis, and the second computes what comes into them. -/
def crossingPhisText : String :=
  "fn @f(%x) \x7b\n" ++
  "a:\n  %p = phi [b, %m]\n  %q = phi [b, %n]\n  %s = add %p, %q\n  br b\n" ++
  "b:\n  %m = add %x, 1\n  %n = add %x, 1\n  br a\n\x7d\n"

/-- The function that `crossingPhisText` describes. -/
def crossingPhis : Func where
  name := "f"
  arguments := ["x"]
  globals := []
  definitions :=
    [⟨.phi [(1, .inst 4)], some "p"⟩, ⟨.phi [(1, .inst 5)], some "q"⟩,
      ⟨.binary .add (.inst 0) (.inst 1), some "s"⟩, ⟨.branch 1, none⟩,
      ⟨.binary .add (.argument 0) (.const 1), some "m"⟩,
      ⟨.binary .add (.argument 0) (.const 1), some "n"⟩, ⟨.branch 0, none⟩]
  blocks := [⟨"a", [0, 1, 2, 3]⟩, ⟨"b", [4, 5, 6]⟩]
  placed := by decide

theorem parse_crossingPhisText : Source.parse crossingPhisText = .ok [crossingPhis] := by
  have read : (match Source.parse crossingPhisText with
      | .ok funcs => decide (funcs = [crossingPhis])
      | .error _ => false) = true := by decide +kernel
  split at read
  · next funcs parsed => rw [parsed, of_decide_eq_true read]
  · cases read

/-- The duplicate in the second block makes the phis of the first equal when that block is already
behind the pass, so a second pass moves the uses of one of them. -/
theorem second_reuse_crossingPhis :
    ∃ f, Source.parse crossingPhisText = .ok [f] ∧
      (reuse .conservative (reuse .conservative f).func).modified = true ∧
      (reuse .conservative (reuse .conservative f).func).func ≠ (reuse .conservative f).func :=
  ⟨crossingPhis, parse_crossingPhisText, by decide +kernel, by decide +kernel⟩

end BlockReuse
