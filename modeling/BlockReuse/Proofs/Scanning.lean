import Mathlib.Data.List.Induction
import BlockReuse.Proofs.Placement
import BlockReuse.Proofs.Rekeying

/-!
# Scanning — what a scan of a block keeps

A step of a scan does one of three things (`Stepped`): it passes an instruction that is not reused,
it makes an instruction the representative of its key, or it redirects an instruction to the
representative of its key and works off what follows from that. Each keeps the table current and
makes only moves from a member to an earlier member with the same key (`Scan.Consistent`). So does a
scan, and so does a pass over all blocks.
-/

set_option autoImplicit false

namespace BlockReuse

namespace Scan

/-! ## One step -/

/-- What a step at an instruction `x` can lead to. -/
inductive Stepped (oracle : Oracle) (block : Nat) (s : Scan) (index : Nat) (x : Instruction Value) :
    Scan → Prop
  | passed : x.key? = none →
    Stepped oracle block s index x ((s.passWrite oracle block index x).visit index)
  | fresh {key : ExpressionKey} : x.key? = some key → s.table.find? key = none →
    Stepped oracle block s index x
      ⟨s.func, s.table.insert key index, s.scanned ++ [index],
        s.events ++ [.newExpression index]⟩
  | repeated {key : ExpressionKey} {representative : Nat} : x.key? = some key →
    s.table.find? key = some representative →
    (earlier : (s.scanned ++ [index]).idxOf representative < (s.scanned ++ [index]).idxOf index) →
    Stepped oracle block s index x
      ⟨(settle s.func s.table (s.scanned ++ [index]) [⟨index, representative, earlier⟩]).func,
        (settle s.func s.table (s.scanned ++ [index]) [⟨index, representative, earlier⟩]).table,
        s.scanned ++ [index],
        s.events ++
          (settle s.func s.table (s.scanned ++ [index])
            [⟨index, representative, earlier⟩]).events⟩

/-- A reusable instruction writes nothing, so it ends no entries. -/
theorem passWrite_of_key? {oracle : Oracle} {block index : Nat} {s : Scan} {x : Instruction Value}
    {key : ExpressionKey} (keyed : x.key? = some key) : s.passWrite oracle block index x = s := by
  have silent := Instruction.mayWrite_of_isReusable (Instruction.isReusable_of_key? keyed)
  simp [passWrite, silent]

theorem idxOf_lt_idxOf_append_singleton {scanned : List Nat} {index other : Nat}
    (seen : other ∈ scanned) (new : index ∉ scanned) :
    (scanned ++ [index]).idxOf other < (scanned ++ [index]).idxOf index := by
  rw [List.idxOf_append, if_pos seen, List.idxOf_append, if_neg new]
  have := List.idxOf_lt_length_of_mem seen
  omega

theorem lookUp_of_find?_none {s : Scan} (index : Nat) {key : ExpressionKey}
    (missing : s.table.find? key = none) :
    s.lookUp index key =
      ⟨s.func, s.table.insert key index, s.scanned, s.events ++ [.newExpression index]⟩ := by
  simp only [lookUp, missing]

theorem lookUp_of_find?_some {s : Scan} {index representative : Nat} {key : ExpressionKey}
    (found : s.table.find? key = some representative)
    (earlier : s.scanned.idxOf representative < s.scanned.idxOf index) :
    s.lookUp index key =
      ⟨(settle s.func s.table s.scanned [⟨index, representative, earlier⟩]).func,
        (settle s.func s.table s.scanned [⟨index, representative, earlier⟩]).table, s.scanned,
        s.events ++
          (settle s.func s.table s.scanned [⟨index, representative, earlier⟩]).events⟩ := by
  simp only [lookUp, found, dif_pos earlier]

theorem stepped_step (oracle : Oracle) (block : Nat) {index : Nat} {s : Scan}
    {x : Instruction Value} (current : s.table.Current s.func s.scanned) (new : index ∉ s.scanned)
    (found : s.func.instruction? index = some x) :
    Stepped oracle block s index x (step oracle block s index) := by
  simp only [step, found]
  cases keyed : x.key? with
  | none => exact .passed keyed
  | some key =>
    rw [passWrite_of_key? keyed]
    cases hit : s.table.find? key with
    | none =>
      have stepped := lookUp_of_find?_none (s := s.visit index) index hit
      simp only [stepped]
      exact .fresh keyed hit
    | some representative =>
      have seen := (current _ (ExpressionTable.find?_eq_some.mp hit)).1
      have earlier := idxOf_lt_idxOf_append_singleton seen new
      have stepped := lookUp_of_find?_some (s := s.visit index) hit earlier
      simp only [stepped]
      exact .repeated keyed hit earlier

/-! ## What a scan keeps -/

/-- What holds between two steps of a scan that started with `f`: the reports tell the function,
the table is current, and every move was from a scanned member to an earlier one with its key. -/
structure Consistent (f : Func) (s : Scan) : Prop where
  func : s.func = f.after s.events
  current : s.table.Current s.func s.scanned
  moves : EachMove (fun g source target => ∃ key, Repeats g s.scanned source target key) f s.events

theorem consistent_start (f : Func) : Consistent f (start f) where
  func := rfl
  current := fun e mem => by cases mem
  moves := trivial

section Step

variable {f : Func} {s : Scan} {oracle : Oracle} {block index : Nat} {x : Instruction Value}

/-- Passing a write reports no move and only takes entries from the table. -/
theorem exists_passWrite (s : Scan) (oracle : Oracle) (block index : Nat) (x : Instruction Value) :
    ∃ keep report, s.passWrite oracle block index x =
        ⟨s.func, s.table.retain keep, s.scanned, s.events ++ report⟩ ∧
      ∀ g : Func, g.after report = g ∧ ∀ P, EachMove P g report := by
  by_cases writes : x.mayWrite = true
  · refine ⟨outlives s.func oracle x, [_], by simp only [passWrite, if_pos writes]; rfl, ?_⟩
    exact fun g => ⟨rfl, fun P => trivial⟩
  · refine ⟨fun _ => true, [], ?_, fun g => ⟨rfl, fun P => trivial⟩⟩
    simp [passWrite, writes, ExpressionTable.retain]

/-- What is in the table behind a write was in it before, and outlives the write. -/
theorem mem_passWrite {e : Entry} (mem : e ∈ (s.passWrite oracle block index x).table.entries) :
    e ∈ s.table.entries ∧ (x.mayWrite = true → outlives s.func oracle x e = true) := by
  unfold passWrite at mem
  split at mem
  · obtain ⟨mem, kept⟩ := ExpressionTable.mem_retain.mp mem
    exact ⟨mem, fun _ => kept⟩
  · next silent => exact ⟨mem, fun writes => absurd writes silent⟩

theorem current_append {table : ExpressionTable} {scanned : List Nat}
    (current : table.Current f scanned) (index : Nat) : table.Current f (scanned ++ [index]) :=
  fun e mem => ⟨List.mem_append_left _ (current e mem).1, (current e mem).2⟩

theorem Consistent.step (consistent : Consistent f s) (new : index ∉ s.scanned)
    (found : s.func.instruction? index = some x) :
    Consistent f (Scan.step oracle block s index) := by
  have stepped := stepped_step oracle block consistent.current new found
  have moves : EachMove
      (fun g source target => ∃ key, Repeats g (s.scanned ++ [index]) source target key)
      f s.events :=
    consistent.moves.mono fun g source target ⟨key, repeated⟩ => ⟨key, repeated.append [index]⟩
  generalize Scan.step oracle block s index = next at stepped ⊢
  cases stepped with
  | passed unkeyed =>
    obtain ⟨keep, report, passed, silent⟩ := exists_passWrite s oracle block index x
    rw [passed]
    refine ⟨?_, ?_, eachMove_append.mpr ⟨moves, (silent _).2 _⟩⟩
    · rw [visit, Func.after_append, (silent _).1, consistent.func]
    · refine current_append (fun e mem => consistent.current e ?_) index
      exact (ExpressionTable.mem_retain.mp mem).1
  | fresh keyed missing =>
    refine ⟨?_, ?_, eachMove_append.mpr ⟨moves, trivial⟩⟩
    · rw [Func.after_append, ← consistent.func]
      rfl
    · intro e mem
      rcases ExpressionTable.mem_insert.mp mem with rfl | ⟨mem, -⟩
      · exact ⟨by simp, Func.key?_eq_some.mpr ⟨x, found, keyed⟩⟩
      · exact current_append consistent.current index e mem
  | @repeated key representative keyed hit earlier =>
    obtain ⟨rest, settled, spec⟩ := settle_singleton ⟨index, representative, earlier⟩
      (current_append consistent.current index)
    rw [settled]
    have first : Repeats s.func (s.scanned ++ [index]) index representative key :=
      ⟨by simp, earlier, Func.key?_eq_some.mpr ⟨x, found, keyed⟩,
        (consistent.current _ (ExpressionTable.find?_eq_some.mp hit)).2⟩
    refine ⟨?_, spec.current, eachMove_append.mpr ⟨moves, ?_⟩⟩
    · rw [Func.after_append, ← consistent.func]
      exact spec.func
    · rw [← consistent.func]
      exact ⟨⟨key, first⟩, spec.moves.mono fun g source target ⟨key, repeated, _⟩ =>
        ⟨key, repeated⟩⟩

end Step

/-! ## The scan of a block -/

@[simp]
theorem run_nil (oracle : Oracle) (block : Nat) (f : Func) : run oracle block f [] = start f := rfl

@[simp]
theorem run_append_singleton (oracle : Oracle) (block : Nat) (f : Func) (done : List Nat)
    (index : Nat) :
    run oracle block f (done ++ [index]) = step oracle block (run oracle block f done) index := by
  simp [run]

theorem scanned_passWrite (s : Scan) (oracle : Oracle) (block index : Nat)
    (x : Instruction Value) : (s.passWrite oracle block index x).scanned = s.scanned := by
  unfold passWrite
  split <;> rfl

theorem scanned_lookUp (s : Scan) (index : Nat) (key : ExpressionKey) :
    (s.lookUp index key).scanned = s.scanned := by
  unfold lookUp
  split
  · rfl
  · split <;> rfl

@[simp]
theorem scanned_step (oracle : Oracle) (block : Nat) (s : Scan) (index : Nat) :
    (step oracle block s index).scanned = s.scanned ++ [index] := by
  unfold step
  split
  · rfl
  · next x _ =>
    cases x.key? with
    | none => exact congrArg (· ++ [index]) (scanned_passWrite ..)
    | some key => exact (scanned_lookUp ..).trans (congrArg (· ++ [index]) (scanned_passWrite ..))

/-- A scan has visited the members it was given, in order. -/
@[simp]
theorem scanned_run (oracle : Oracle) (block : Nat) (f : Func) (done : List Nat) :
    (run oracle block f done).scanned = done := by
  induction done using List.reverseRecOn with
  | nil => rfl
  | append_singleton done index ih => rw [run_append_singleton, scanned_step, ih]

/-- A scan that is consistent knows the instructions of the members it comes to. -/
theorem Consistent.exists_instruction? {f : Func} {b : Block} {s : Scan} {index : Nat}
    (consistent : Consistent f s) (mem : b ∈ f.blocks) (member : index ∈ b.members) :
    ∃ x, s.func.instruction? index = some x := by
  obtain ⟨x, found⟩ := Func.exists_instruction?_of_mem mem member
  obtain ⟨g, found⟩ := Func.exists_instruction?_after found s.events
  rw [consistent.func]
  exact ⟨_, found⟩

/-- A scan is consistent wherever it stands in a block of the function. -/
theorem consistent_run {f : Func} {b : Block} (mem : b ∈ f.blocks) (oracle : Oracle) (block : Nat)
    {done : List Nat} (inBlock : done <+: b.members) :
    Consistent f (run oracle block f done) := by
  induction done using List.reverseRecOn with
  | nil => exact consistent_start f
  | append_singleton done index ih =>
    have consistent := ih ((List.prefix_append done [index]).trans inBlock)
    have member : index ∈ b.members := inBlock.subset (by simp)
    obtain ⟨x, found⟩ := consistent.exists_instruction? mem member
    rw [run_append_singleton]
    exact consistent.step (by rw [scanned_run]; exact Func.not_mem_of_prefix mem inBlock) found

/-- What the next step of a scan can lead to. -/
theorem stepped_run {f : Func} {b : Block} (mem : b ∈ f.blocks) (oracle : Oracle) (block : Nat)
    {done : List Nat} {index : Nat} (inBlock : done ++ [index] <+: b.members) :
    ∃ x, (run oracle block f done).func.instruction? index = some x ∧
      Stepped oracle block (run oracle block f done) index x
        (run oracle block f (done ++ [index])) := by
  have consistent := consistent_run mem oracle block
    ((List.prefix_append done [index]).trans inBlock)
  have member : index ∈ b.members := inBlock.subset (by simp)
  obtain ⟨x, found⟩ := consistent.exists_instruction? mem member
  rw [run_append_singleton]
  refine ⟨_, found, stepped_step oracle block consistent.current ?_ found⟩
  rw [scanned_run]
  exact Func.not_mem_of_prefix mem inBlock

theorem exists_events_lookUp (s : Scan) (index : Nat) (key : ExpressionKey) :
    ∃ new, (s.lookUp index key).events = s.events ++ new := by
  unfold lookUp
  split
  · exact ⟨_, rfl⟩
  · split
    · exact ⟨_, rfl⟩
    · exact ⟨[], (List.append_nil _).symm⟩

/-- A step adds to the report. -/
theorem exists_events_step (oracle : Oracle) (block : Nat) (s : Scan) (index : Nat) :
    ∃ new, (step oracle block s index).events = s.events ++ new := by
  unfold step
  split
  · exact ⟨[], (List.append_nil _).symm⟩
  · next x _ =>
    obtain ⟨keep, report, passed, -⟩ := exists_passWrite s oracle block index x
    rw [passed]
    cases x.key? with
    | none => exact ⟨report, rfl⟩
    | some key =>
      obtain ⟨new, added⟩ := exists_events_lookUp
        (visit ⟨s.func, s.table.retain keep, s.scanned, s.events ++ report⟩ index) index key
      exact ⟨report ++ new, added.trans (List.append_assoc ..)⟩

/-- What a scan has reported, it has reported when it goes on. -/
theorem prefix_events_run (oracle : Oracle) (block : Nat) (f : Func) {done members : List Nat}
    (inside : done <+: members) :
    (run oracle block f done).events <+: (run oracle block f members).events := by
  obtain ⟨rest, rfl⟩ := inside
  induction rest using List.reverseRecOn with
  | nil => simp
  | append_singleton rest last ih =>
    obtain ⟨new, added⟩ := exists_events_step oracle block (run oracle block f (done ++ rest)) last
    rw [← List.append_assoc, run_append_singleton, added]
    exact ih.trans (List.prefix_append _ _)

/-- What a scan reports, it reports in the step at some member. -/
theorem exists_step_of_event {oracle : Oracle} {block : Nat} {f : Func} {members : List Nat}
    {earlier later : List Event} {event : Event}
    (reported : (run oracle block f members).events = earlier ++ event :: later) :
    ∃ done index rest opening more, members = done ++ index :: rest ∧
      earlier = (run oracle block f done).events ++ opening ∧
      (run oracle block f (done ++ [index])).events =
        (run oracle block f done).events ++ (opening ++ event :: more) := by
  induction members using List.reverseRecOn generalizing later with
  | nil => simp [start] at reported
  | append_singleton members last ih =>
    obtain ⟨new, added⟩ := exists_events_step oracle block (run oracle block f members) last
    rw [← run_append_singleton] at added
    rcases List.append_eq_append_iff.mp (added.symm.trans reported) with
      ⟨opening, before, behind⟩ | ⟨kept, before, behind⟩
    · exact ⟨members, last, [], opening, later, rfl, before, by rw [added, behind]⟩
    · cases kept with
      | nil =>
        rw [List.append_nil] at before
        exact ⟨members, last, [], [], later, rfl, by rw [before, List.append_nil],
          by rw [added, List.nil_append, behind, List.nil_append]⟩
      | cons first kept =>
        obtain ⟨rfl, -⟩ := List.cons.inj behind
        obtain ⟨done, index, rest, opening, more, rfl, before, inStep⟩ := ih before
        exact ⟨done, index, rest ++ [last], opening, more, by simp, before, inStep⟩

end Scan

/-! ## The pass over all blocks -/

/-- The pass over some blocks, behind what was done already. -/
def reuseBlocks (oracle : Oracle) (o : Outcome) (blocks : List (Block × Nat)) : Outcome :=
  blocks.foldl
    (fun o (b, block) =>
      let next := reuseMembers oracle o.func block b.members
      ⟨next.func, o.events ++ next.events⟩)
    o

theorem reuse_eq_reuseBlocks (oracle : Oracle) (f : Func) :
    reuse oracle f = reuseBlocks oracle ⟨f, []⟩ f.blocks.zipIdx := rfl

/-- What was reported stays reported. -/
theorem prefix_events_reuseBlocks (oracle : Oracle) (o : Outcome) (blocks : List (Block × Nat)) :
    o.events <+: (reuseBlocks oracle o blocks).events := by
  induction blocks generalizing o with
  | nil => exact List.prefix_refl _
  | cons next blocks ih =>
    have rest := ih ⟨(reuseMembers oracle o.func next.2 next.1.members).func,
      o.events ++ (reuseMembers oracle o.func next.2 next.1.members).events⟩
    exact (List.prefix_append _ _).trans rest

/-- What a pass over blocks does to a function is its moves, and they satisfy `P` if the moves of
each scan do, in the function that the moves before it lead to. -/
theorem reuseBlocks_moves {P : Func → Nat → Nat → Prop} {oracle : Oracle} {f : Func}
    {blocks : List (Block × Nat)} (placed : ∀ p ∈ blocks, f.blocks[p.2]? = some p.1) (o : Outcome)
    (func : o.func = f.after o.events) (moves : EachMove P f o.events)
    (scan : ∀ prior block b, f.blocks[block]? = some b → EachMove P f prior →
      prior ++ (Scan.run oracle block (f.after prior) b.members).events <+:
        (reuseBlocks oracle o blocks).events →
      EachMove P (f.after prior) (Scan.run oracle block (f.after prior) b.members).events) :
    (reuseBlocks oracle o blocks).func = f.after (reuseBlocks oracle o blocks).events ∧
      EachMove P f (reuseBlocks oracle o blocks).events := by
  induction blocks generalizing o with
  | nil => exact ⟨func, moves⟩
  | cons next blocks ih =>
    obtain ⟨b, block⟩ := next
    have found : f.blocks[block]? = some b := placed _ List.mem_cons_self
    have mem : b ∈ (f.after o.events).blocks := by
      rw [Func.blocks_after]
      exact List.mem_of_getElem? found
    have consistent := Scan.consistent_run mem oracle block (List.prefix_refl b.members)
    refine ih (fun p mem => placed p (List.mem_cons_of_mem _ mem)) _ ?_ ?_ scan
    · simp only [reuseMembers, func, Func.after_append]
      exact consistent.func
    · simp only [reuseMembers, func]
      refine eachMove_append.mpr ⟨moves, scan o.events block b found moves ?_⟩
      have reported := prefix_events_reuseBlocks oracle
        ⟨(Scan.run oracle block (f.after o.events) b.members).func,
          o.events ++ (Scan.run oracle block (f.after o.events) b.members).events⟩ blocks
      simpa only [reuseBlocks, List.foldl_cons, reuseMembers, func] using reported

/-- The same for the pass over a whole function. -/
theorem reuse_moves {P : Func → Nat → Nat → Prop} (oracle : Oracle) (f : Func)
    (scan : ∀ prior block b, f.blocks[block]? = some b → EachMove P f prior →
      prior ++ (Scan.run oracle block (f.after prior) b.members).events <+:
        (reuse oracle f).events →
      EachMove P (f.after prior) (Scan.run oracle block (f.after prior) b.members).events) :
    (reuse oracle f).func = f.after (reuse oracle f).events ∧
      EachMove P f (reuse oracle f).events := by
  refine reuseBlocks_moves ?_ ⟨f, []⟩ rfl trivial scan
  rintro ⟨b, block⟩ mem
  exact (List.mem_zipIdx_iff_getElem?.mp mem)

end BlockReuse
