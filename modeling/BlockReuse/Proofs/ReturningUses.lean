import BlockReuse.Proofs.Coverage
import BlockReuse.Proofs.Semantics

/-!
# Returning uses — which duplicates a scan leaves with uses

A scan redirects every duplicate that it makes or meets, among the members that read no memory: one
that is not redirected represents its key, and then no earlier member has it (`Scan.Complete`).
Right behind its redirection a duplicate has no use.

It may get uses again. Redirections wait, the newest is worked off first, and the target of one that
waits longer can be redirected before its turn comes. Such a redirection then moves uses to an
instruction that is a duplicate by now, and no further one takes them away (`UsesReturn`). This is
the only way for a duplicate to end with uses, and it happens (`crossedPhis`).
-/

set_option autoImplicit false

namespace BlockReuse

/-- Some redirection moves uses to the instruction, and none behind it moves them on. -/
def UsesReturn (events : List Event) (index : Nat) : Prop :=
  ∃ before source users after, events = before ++ .redirected source index users :: after ∧
    users ≠ [] ∧ ¬ Redirected after index

/-! ## The uses behind a report -/

section Uses

variable {f : Func} {index source target : Nat} {users : List Nat} {event : Event}
  {events : List Event}

theorem Func.useCount_eq_zero_iff : f.useCount index = 0 ↔ .inst index ∉ f.operands :=
  List.count_eq_zero

theorem Func.usersOf_eq_nil_iff : f.usersOf index = [] ↔ .inst index ∉ f.operands := by
  constructor
  · intro unused mem
    obtain ⟨x, xMem, mentioned⟩ := List.mem_flatMap.mp mem
    obtain ⟨user, found⟩ := List.mem_iff_getElem?.mp xMem
    have user : user ∈ f.usersOf index := mem_usersOf.mpr ⟨x, found, mentioned⟩
    rw [unused] at user
    cases user
  · intro absent
    exact List.eq_nil_iff_forall_not_mem.mpr fun user mem =>
      absent (inst_mem_operands_of_mem_usersOf mem)

/-- Behind a move an instruction is mentioned if it was and is not the source, or if it is the
target and the source was mentioned. -/
theorem Func.inst_mem_operands_redirectUses :
    .inst index ∈ (f.redirectUses source (.inst target)).operands ↔
      .inst index ∈ f.operands ∧ index ≠ source ∨ target = index ∧ .inst source ∈ f.operands := by
  rw [redirectUses, operands_mapOperands, List.mem_map]
  constructor
  · rintro ⟨v, mem, moved⟩
    by_cases same : v = .inst source
    · subst same
      rw [moveUses_source] at moved
      exact .inr ⟨Value.inst.inj moved, mem⟩
    · rw [moveUses_of_ne same] at moved
      subst moved
      exact .inl ⟨mem, fun eq => same (congrArg Value.inst eq)⟩
  · rintro (⟨mem, other⟩ | ⟨rfl, mem⟩)
    · exact ⟨_, mem, moveUses_of_ne fun same => other (Value.inst.inj same)⟩
    · exact ⟨_, mem, moveUses_source source (.inst target)⟩

theorem redirected_cons :
    Redirected (event :: events) index ↔
      (∃ target users, event = .redirected index target users) ∨ Redirected events index := by
  simp only [Redirected, List.mem_cons, exists_or, eq_comm (b := event)]

theorem usesReturn_cons :
    UsesReturn (event :: events) index ↔
      (∃ source users, event = .redirected source index users ∧ users ≠ []) ∧
          ¬ Redirected events index ∨
        UsesReturn events index := by
  constructor
  · rintro ⟨before, source, users, after, split, used, last⟩
    cases before with
    | nil =>
      obtain ⟨rfl, rfl⟩ := List.cons.inj split
      exact .inl ⟨⟨source, users, rfl, used⟩, last⟩
    | cons first before =>
      obtain ⟨-, rfl⟩ := List.cons.inj split
      exact .inr ⟨before, source, users, after, rfl, used, last⟩
  · rintro (⟨⟨source, users, rfl, used⟩, last⟩ | ⟨before, source, users, after, rfl, used, last⟩)
    · exact ⟨[], source, users, events, rfl, used, last⟩
    · exact ⟨event :: before, source, users, after, rfl, used, last⟩

/-- Behind a report an instruction is mentioned if it was and no redirection took the mentions away,
or if uses return to it. -/
theorem inst_mem_operands_after_iff
    (moves : EachMove (fun _ source target => target ≠ source) f events)
    (truthful : Truthful f events) :
    .inst index ∈ (f.after events).operands ↔
      .inst index ∈ f.operands ∧ ¬ Redirected events index ∨ UsesReturn events index := by
  induction events generalizing f with
  | nil => simp [Redirected, UsesReturn]
  | cons event events ih =>
    rw [redirected_cons, usesReturn_cons]
    cases event with
    | memoryWritten writer block removed queries =>
      refine (ih moves truthful).trans ?_
      simp
    | newExpression made =>
      refine (ih moves truthful).trans ?_
      simp
    | redirected source target users =>
      obtain ⟨distinct, moves⟩ := moves
      obtain ⟨rfl, truthful⟩ := truthful
      refine (ih moves truthful).trans ?_
      have used : f.usersOf source ≠ [] ↔ .inst source ∈ f.operands := by
        rw [ne_eq, Func.usersOf_eq_nil_iff, not_not]
      -- what is left depends on whether the instruction is the source, the target or neither
      simp only [Func.inst_mem_operands_redirectUses, Event.redirected.injEq, ← used]
      grind

end Uses

/-! ## Duplicates behind a scan -/

/-- Of two members that have one key and read no memory, the later one has been redirected. -/
theorem Scan.Complete.redirected {s : Scan} (complete : s.Complete) {earlier later : Nat}
    {key : ExpressionKey} (seen : later ∈ s.scanned)
    (before : s.scanned.idxOf earlier < s.scanned.idxOf later)
    (earlierKey : s.func.pureKey? earlier = some key)
    (laterKey : s.func.pureKey? later = some key) : Redirected s.events later := by
  have earlierSeen := mem_of_idxOf_lt seen before
  obtain ⟨first, entry, place⟩ := complete earlier earlierSeen List.not_mem_nil key earlierKey
  obtain ⟨first', entry', same | ⟨-, redirected⟩⟩ :=
    complete later seen List.not_mem_nil key laterKey
  · -- then `later` would represent the key of `earlier` too
    obtain rfl := ExpressionTable.eq_of_mem entry entry'
    subst same
    rcases place with rfl | ⟨behind, -⟩
    · exact absurd before (Nat.lt_irrefl _)
    · exact absurd before (Nat.lt_asymm behind)
  · exact redirected

/-- If two members of a block have one key behind its scan and read no memory, then the scan has
redirected the later one; and the later one is left without uses exactly if none return to it. -/
theorem useCount_pureDuplicate_eq_zero_iff {oracle : Oracle} {f : Func} {block : Nat} {b : Block}
    {o : Outcome} (found : f.blocks[block]? = some b)
    (passed : reuseBlock? oracle f block = some o) {earlier later : Nat} {key : ExpressionKey}
    (member : later ∈ b.members) (before : b.members.idxOf earlier < b.members.idxOf later)
    (earlierKey : o.func.pureKey? earlier = some key)
    (laterKey : o.func.pureKey? later = some key) :
    Redirected o.events later ∧
      (o.func.useCount later = 0 ↔ ¬ UsesReturn o.events later) := by
  have mem : b ∈ f.blocks := List.mem_of_getElem? found
  rw [reuseBlock?, found, Option.map_some, Option.some.injEq] at passed
  subst passed
  have consistent := Scan.consistent_run mem oracle block (List.prefix_refl b.members)
  have complete := Scan.complete_run mem oracle block (List.prefix_refl b.members)
  have truthful := truthful_run mem oracle block (List.prefix_refl b.members)
  have distinct : EachMove (fun _ source target => target ≠ source) f
      (Scan.run oracle block f b.members).events := by
    refine consistent.moves.mono fun g source target ⟨key, repeated⟩ => ?_
    rintro rfl
    exact Nat.lt_irrefl _ repeated.earlier
  have redirected : Redirected (Scan.run oracle block f b.members).events later := by
    refine complete.redirected ?_ ?_ earlierKey laterKey
    · rwa [Scan.scanned_run]
    · rwa [Scan.scanned_run]
  refine ⟨redirected, ?_⟩
  show (Scan.run oracle block f b.members).func.useCount later = 0 ↔ _
  rw [Func.useCount_eq_zero_iff, consistent.func, inst_mem_operands_after_iff distinct truthful]
  exact not_congr (or_iff_right fun unmoved => unmoved.2 redirected)

/-- The second phi of `latePhis` is redirected to the first and stays without uses. -/
theorem useCount_pureDuplicate_latePhis :
    ∃ o, reuseBlock? .conservative latePhis 0 = some o ∧
      o.func.pureKey? 0 = o.func.pureKey? 1 ∧ ¬ UsesReturn o.events 1 ∧
      o.func.useCount 1 = 0 := by
  have unused : (reuseMembers .conservative latePhis 0 [0, 1, 2, 3, 4, 5]).func.useCount 1 = 0 := by
    decide +kernel
  have same : (reuseMembers .conservative latePhis 0 [0, 1, 2, 3, 4, 5]).func.pureKey? 0 =
      some ⟨.phi [0], #v[some (.inst 2), none, none, none, none]⟩ ∧
      (reuseMembers .conservative latePhis 0 [0, 1, 2, 3, 4, 5]).func.pureKey? 1 =
        some ⟨.phi [0], #v[some (.inst 2), none, none, none, none]⟩ := by decide +kernel
  obtain ⟨-, zeroIff⟩ := @useCount_pureDuplicate_eq_zero_iff .conservative latePhis 0 _ _ rfl rfl
    0 1 _ (by decide) (by decide) same.1 same.2
  exact ⟨_, rfl, same.1.trans same.2.symm, zeroIff.mp unused, unused⟩

/-! ## A duplicate that gets uses again -/

/-- The phis of each block stand before its other members. -/
def Func.PhisFirst (f : Func) : Prop :=
  ∀ b ∈ f.blocks, ∀ i ∈ b.members, ∀ j ∈ b.members, ∀ x ∈ f.instruction? i,
    ∀ y ∈ f.instruction? j, x.isPhi = true → y.isPhi = false →
      b.members.idxOf i < b.members.idxOf j

instance (f : Func) : Decidable f.PhisFirst :=
  inferInstanceAs (Decidable (∀ b ∈ f.blocks, ∀ i ∈ b.members, ∀ j ∈ b.members,
    ∀ x ∈ f.instruction? i, ∀ y ∈ f.instruction? j, x.isPhi = true → y.isPhi = false →
      b.members.idxOf i < b.members.idxOf j))

/-- A loop with five phis that comes back over two blocks. The sum in it is computed twice; once the
second is redirected, the last two phis are duplicates, and once the last one is redirected in turn,
the first is what the third is. -/
def crossedPhis : Func where
  name := "f"
  arguments := ["a", "c"]
  globals := []
  definitions :=
    [⟨.branch 1, none⟩,
      ⟨.phi [(0, .const 0), (2, .inst 6), (3, .inst 5)], some "q"⟩,
      ⟨.phi [(0, .const 1), (2, .inst 6), (3, .const 2)], some "y"⟩,
      ⟨.phi [(0, .const 0), (2, .inst 6), (3, .inst 2)], some "p"⟩,
      ⟨.phi [(0, .const 0), (2, .inst 7), (3, .inst 2)], some "r"⟩,
      ⟨.phi [(0, .const 1), (2, .inst 7), (3, .const 2)], some "x"⟩,
      ⟨.binary .add (.argument 0) (.const 1), some "v"⟩,
      ⟨.binary .add (.argument 0) (.const 1), some "w"⟩,
      ⟨.binary .add (.inst 4) (.const 5), some "u"⟩,
      ⟨.condBranch (.argument 1) 2 3, none⟩,
      ⟨.branch 1, none⟩,
      ⟨.branch 1, none⟩]
  blocks :=
    [⟨"e", [0]⟩, ⟨"h", [1, 2, 3, 4, 5, 6, 7, 8, 9]⟩, ⟨"s", [10]⟩, ⟨"t", [11]⟩]
  placed := by decide

/-- The redirection of the fourth phi to the third waits while the third is redirected to the first,
and then moves a use to the third. -/
theorem useCount_pureDuplicate_crossedPhis :
    crossedPhis.PhisFirst ∧ crossedPhis.Ordered ∧
      ∃ o, reuseBlock? .conservative crossedPhis 1 = some o ∧
        (o.func.pureKey? 1).isSome ∧ o.func.pureKey? 1 = o.func.pureKey? 3 ∧
        o.events.drop 6 = [.redirected 7 6 [4, 5], .redirected 5 2 [1], .redirected 3 1 [],
          .redirected 4 3 [8], .newExpression 8] ∧
        o.func.useCount 3 = 1 := by
  refine ⟨by decide, by decide, _, rfl, ?_, ?_, ?_, ?_⟩
  all_goals decide +kernel

end BlockReuse
