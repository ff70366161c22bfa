import BlockReuse.Proofs.Scanning

/-!
# Load merging — a load is reused only across writes known to be harmless

An entry of a load is in the table only as long as every write since its load is a store the oracle
put apart from it. The question was asked when the store was scanned, about the operands the two had
then; later moves change these, but not what was answered. So the invariant speaks of the whole
history of a scan: for each load in the table, of the state the scan was in before each member
behind the load (`Unharmed`).

Rekeying only ever drops loads, so an entry that a write has ended does not come back, and every
redirection that rekeying asks for is between instructions that are no loads.
-/

set_option autoImplicit false

namespace BlockReuse

/-! ## Loads of a function -/

/-- Whether an instruction of the function is a load. -/
def Func.isLoad (f : Func) (index : Nat) : Bool := (f.instruction? index).any Instruction.isLoad

/-- The location of an instruction of the function, if it is a load or a store. -/
def Func.location? (f : Func) (index : Nat) : Option Location :=
  (f.instruction? index).bind Instruction.location?

namespace Instruction

@[simp]
theorem isLoad_map {ν μ : Type} (g : ν → μ) (x : Instruction ν) : (x.map g).isLoad = x.isLoad := by
  cases x <;> rfl

theorem isLoad_of_key? {x : Instruction Value} {key : ExpressionKey} (keyed : x.key? = some key) :
    x.isLoad = key.opcode.isLoad := by
  rw [opcode_of_key? keyed]
  cases x <;> rfl

/-- A load that may be reused is not volatile. -/
theorem exists_load_of_key? {x : Instruction Value} {key : ExpressionKey}
    (keyed : x.key? = some key) (load : key.opcode.isLoad = true) :
    ∃ type pointer, x = .load type pointer false := by
  rw [← isLoad_of_key? keyed] at load
  have reusable := isReusable_of_key? keyed
  cases x with
  | load type pointer isVolatile =>
    cases isVolatile with
    | false => exact ⟨type, pointer, rfl⟩
    | true => cases reusable
  | _ => cases load

/-- Loads that have one key are the same load. -/
theorem load_eq_of_key? {x : Instruction Value} {type : IrType} {pointer : Value}
    {key : ExpressionKey} (keyed : (load type pointer false).key? = some key)
    (xKeyed : x.key? = some key) : x = .load type pointer false := by
  have isLoad : key.opcode.isLoad = true := (isLoad_of_key? keyed).symm
  obtain ⟨type', pointer', rfl⟩ := exists_load_of_key? xKeyed isLoad
  exact eq_of_key?_eq xKeyed keyed (by simp [operands, keyWidth]) (by simp [operands, keyWidth])

end Instruction

theorem Func.isLoad_after (f : Func) (events : List Event) (index : Nat) :
    (f.after events).isLoad index = f.isLoad index := by
  obtain ⟨g, after⟩ := f.exists_after_eq_mapOperands events
  rw [after, isLoad, isLoad, instruction?_mapOperands]
  cases f.instruction? index <;> simp

theorem Func.isLoad_of_key? {f : Func} {index : Nat} {key : ExpressionKey}
    (keyed : f.key? index = some key) : f.isLoad index = key.opcode.isLoad := by
  obtain ⟨x, found, keyed⟩ := Func.key?_eq_some.mp keyed
  rw [isLoad, found, Option.any_some, Instruction.isLoad_of_key? keyed]

/-- Neither end of a move between instructions that read no memory is a load. -/
theorem RepeatsPurely.isLoad_eq_false {order : List Nat} {f : Func} {source target : Nat}
    (repeated : RepeatsPurely order f source target) :
    f.isLoad source = false ∧ f.isLoad target = false := by
  obtain ⟨key, repeated, pure⟩ := repeated
  rw [Func.isLoad_of_key? repeated.source_key, Func.isLoad_of_key? repeated.target_key]
  exact ⟨pure, pure⟩

/-- What every move satisfies, a move that is reported satisfies. -/
theorem EachMove.of_mem {P : Func → Nat → Nat → Prop} {f : Func} {earlier later : List Event}
    {source target : Nat} {users : List Nat}
    (moves : EachMove P f (earlier ++ .redirected source target users :: later)) :
    P (f.after earlier) source target :=
  (eachMove_append.mp moves).2.1

/-! ## The history of a load in the table -/

/-- If `writer`, scanned behind the members in `prior`, may write, then it is a store, and the
oracle was asked about the location of `load` and its own, as they were then, and put them apart. -/
def PutApart (oracle : Oracle) (block : Nat) (f : Func) (prior : List Nat) (load writer : Nat) :
    Prop :=
  ∀ x, (Scan.run oracle block f prior).func.instruction? writer = some x → x.mayWrite = true →
    x.isStore = true ∧
    ∃ loaded stored,
      (Scan.run oracle block f prior).func.location? load = some loaded ∧
      (Scan.run oracle block f prior).func.location? writer = some stored ∧
      oracle loaded stored = .no ∧
      ∃ removed queries, (loaded, stored) ∈ queries ∧
        .memoryWritten writer block removed queries ∈
          (Scan.run oracle block f (prior ++ [writer])).events

/-- Every member that was scanned behind `load` and may write was put apart from it. -/
def Unharmed (oracle : Oracle) (block : Nat) (f : Func) (done : List Nat) (load : Nat) : Prop :=
  ∃ before, before ++ [load] <+: done ∧
    ∀ first writer, before ++ load :: first ++ [writer] <+: done →
      PutApart oracle block f (before ++ load :: first) load writer

section History

variable {oracle : Oracle} {block : Nat} {f : Func} {done : List Nat} {load index : Nat}

/-- A load that was just scanned. -/
theorem unharmed_self (oracle : Oracle) (block : Nat) (f : Func) (done : List Nat) (load : Nat) :
    Unharmed oracle block f (done ++ [load]) load := by
  refine ⟨done, List.prefix_refl _, fun first writer inside => ?_⟩
  have length := inside.length_le
  simp only [List.length_append, List.length_cons, List.length_nil] at length
  omega

/-- One more member. -/
theorem Unharmed.append (unharmed : Unharmed oracle block f done load)
    (apart : PutApart oracle block f done load index) :
    Unharmed oracle block f (done ++ [index]) load := by
  obtain ⟨before, inside, putApart⟩ := unharmed
  refine ⟨before, inside.trans (List.prefix_append _ _), fun first writer reached => ?_⟩
  rcases List.prefix_concat_iff.mp reached with last | earlier
  · obtain ⟨same, single⟩ := List.append_inj' last rfl
    obtain rfl := (List.cons.inj single).1
    rw [same]
    exact apart
  · exact putApart first writer earlier

/-- A reusable instruction harms no load. -/
theorem putApart_of_key? {x : Instruction Value} {key : ExpressionKey}
    (found : (Scan.run oracle block f done).func.instruction? index = some x)
    (keyed : x.key? = some key) : PutApart oracle block f done load index := by
  intro y yFound writes
  obtain rfl := Option.some.inj (found.symm.trans yFound)
  rw [Instruction.mayWrite_of_isReusable (Instruction.isReusable_of_key? keyed)] at writes
  cases writes

/-- An entry of a load that outlives a write was put apart from it. -/
theorem exists_locations_of_outlives {g : Func} {x : Instruction Value} {e : Entry}
    (keyed : g.key? e.representative = some e.key) (load : e.key.opcode.isLoad = true)
    (kept : outlives g oracle x e = true) :
    x.isStore = true ∧ ∃ loaded stored, g.location? e.representative = some loaded ∧
      x.location? = some stored ∧ oracle loaded stored = .no ∧
      clobberQuery? g x e = some (loaded, stored) := by
  obtain ⟨y, found, yKeyed⟩ := Func.key?_eq_some.mp keyed
  have reads : e.readsMemory g = true := by
    rw [Entry.readsMemory, found, Option.any_some, Instruction.mayRead_of_key? yKeyed, load]
  have isLoad : y.isLoad = true := by rw [Instruction.isLoad_of_key? yKeyed, load]
  rw [outlives, reads, Bool.not_true, Bool.false_or, Option.any_eq_true] at kept
  obtain ⟨⟨loaded, stored⟩, asked, apart⟩ := kept
  have locations := asked
  rw [clobberQuery?, found, Option.bind_some, Instruction.loadLocation?, if_pos isLoad] at locations
  cases stores : x.isStore with
  | false => simp [Instruction.storeLocation?, stores] at locations
  | true =>
    rw [Instruction.storeLocation?, if_pos stores] at locations
    cases yLocation : y.location? with
    | none => simp [yLocation] at locations
    | some l =>
      cases xLocation : x.location? with
      | none => simp [yLocation, xLocation] at locations
      | some m =>
        simp only [yLocation, xLocation, Option.some.injEq, Prod.mk.injEq] at locations
        obtain ⟨rfl, rfl⟩ := locations
        refine ⟨rfl, l, m, ?_, rfl, by simpa using apart, asked⟩
        rw [Func.location?, found, Option.bind_some, yLocation]

/-- Every load in the table is unharmed, wherever the scan stands. -/
theorem unharmed_run {b : Block} (mem : b ∈ f.blocks) (inBlock : done <+: b.members) :
    ∀ e ∈ (Scan.run oracle block f done).table.entries, e.key.opcode.isLoad = true →
      Unharmed oracle block f done e.representative := by
  induction done using List.reverseRecOn with
  | nil =>
    intro e mem
    cases mem
  | append_singleton done index ih =>
    have before := (List.prefix_append done [index]).trans inBlock
    have consistent := Scan.consistent_run mem oracle block before
    obtain ⟨x, found, stepped⟩ := Scan.stepped_run mem oracle block inBlock
    intro e eMem load
    generalize after : Scan.run oracle block f (done ++ [index]) = next at stepped eMem
    cases stepped with
    | passed unkeyed =>
      by_cases writes : x.mayWrite = true
      · simp only [Scan.visit, Scan.passWrite, if_pos writes] at eMem
        obtain ⟨eMem, kept⟩ := ExpressionTable.mem_retain.mp eMem
        refine (ih before e eMem load).append ?_
        intro y yFound _
        obtain rfl := Option.some.inj (found.symm.trans yFound)
        obtain ⟨stores, loaded, stored, loadedAt, storedAt, apart, asked⟩ :=
          exists_locations_of_outlives (consistent.current e eMem).2 load kept
        refine ⟨stores, loaded, stored, loadedAt, ?_, apart, ?_⟩
        · rw [Func.location?, found, Option.bind_some, storedAt]
        · rw [after]
          simp only [Scan.visit, Scan.passWrite, if_pos writes]
          exact ⟨_, _, List.mem_filterMap.mpr ⟨e, eMem, asked⟩,
            List.mem_append_right _ List.mem_cons_self⟩
      · simp only [Scan.visit, Scan.passWrite, if_neg writes] at eMem
        refine (ih before e eMem load).append ?_
        intro y yFound yWrites
        obtain rfl := Option.some.inj (found.symm.trans yFound)
        exact absurd yWrites writes
    | fresh keyed missing =>
      rcases ExpressionTable.mem_insert.mp eMem with rfl | ⟨eMem, -⟩
      · exact unharmed_self oracle block f done index
      · exact (ih before e eMem load).append (putApart_of_key? found keyed)
    | @repeated key representative keyed hit earlier =>
      obtain ⟨rest, settled, spec⟩ := settle_singleton ⟨index, representative, earlier⟩
        (Scan.current_append consistent.current index)
      rw [settled] at eMem
      exact (ih before e (spec.reads e eMem load) load).append (putApart_of_key? found keyed)

end History

/-! ## Redirections of loads -/

section Redirected

variable {oracle : Oracle} {f : Func} {block : Nat} {b : Block} {done : List Nat} {index : Nat}
  {opening later : List Event} {source target : Nat} {users : List Nat}

/-- A redirection of a step that has a load at an end is the first of the step: it is the one the
lookup of the member asked for. -/
theorem first_of_isLoad (mem : b ∈ f.blocks) (inBlock : done ++ [index] <+: b.members)
    (reported : (Scan.run oracle block f (done ++ [index])).events =
      (Scan.run oracle block f done).events ++
        (opening ++ .redirected source target users :: later))
    (load : f.isLoad source = true ∨ f.isLoad target = true) :
    opening = [] ∧ source = index ∧
      ∃ key, key.opcode.isLoad = true ∧
        (Scan.run oracle block f done).func.key? index = some key ∧
        ⟨key, target⟩ ∈ (Scan.run oracle block f done).table.entries := by
  have consistent := Scan.consistent_run mem oracle block
    ((List.prefix_append done [index]).trans inBlock)
  obtain ⟨x, found, stepped⟩ := Scan.stepped_run mem oracle block inBlock
  generalize Scan.run oracle block f (done ++ [index]) = next at stepped reported
  cases stepped with
  | passed unkeyed =>
    obtain ⟨keep, report, passed, silent⟩ := Scan.exists_passWrite
      (Scan.run oracle block f done) oracle block index x
    rw [passed] at reported
    have same := List.append_cancel_left reported
    have none := (silent f).2 fun _ _ _ => False
    rw [same] at none
    exact none.of_mem.elim
  | fresh keyed missing =>
    have same := List.append_cancel_left reported
    cases opening with
    | nil => cases same
    | cons event opening => simp at same
  | @repeated key representative keyed hit earlier =>
    obtain ⟨rest, settled, spec⟩ := settle_singleton ⟨index, representative, earlier⟩
      (Scan.current_append consistent.current index)
    rw [settled] at reported
    have same := List.append_cancel_left reported
    cases opening with
    | nil =>
      simp only [List.nil_append, List.cons.injEq, Event.redirected.injEq] at same
      obtain ⟨⟨rfl, rfl, -⟩, -⟩ := same
      have entry := ExpressionTable.find?_eq_some.mp hit
      have indexKey := Func.key?_eq_some.mpr ⟨x, found, keyed⟩
      refine ⟨rfl, rfl, key, ?_, indexKey, entry⟩
      rw [← f.isLoad_after (Scan.run oracle block f done).events, ← consistent.func,
        Func.isLoad_of_key? indexKey, ← f.isLoad_after (Scan.run oracle block f done).events,
        ← consistent.func, Func.isLoad_of_key? (consistent.current _ entry).2, or_self] at load
      exact load
    | cons event opening =>
      obtain ⟨-, same⟩ := List.cons.inj same
      have moves := spec.moves
      rw [same] at moves
      -- the function this move is made in, told by what was reported before
      have now : ((Scan.run oracle block f done).func.redirectUses index
          (.inst representative)).after opening =
          f.after ((Scan.run oracle block f done).events ++
            .redirected index representative [] :: opening) := by
        rw [Func.after_append, ← consistent.func]
        rfl
      have ends := moves.of_mem.isLoad_eq_false
      rw [now, Func.isLoad_after, Func.isLoad_after] at ends
      simp [ends] at load

/-- Where a scanned member stands behind another, the block is split by the two. -/
theorem exists_between {load : Nat} (scanned : Unharmed oracle block f done load) :
    ∃ before between, done = before ++ load :: between ∧
      ∀ first writer last, between = first ++ writer :: last →
        PutApart oracle block f (before ++ load :: first) load writer := by
  obtain ⟨before, ⟨between, split⟩, apart⟩ := scanned
  refine ⟨before, between, by rw [← split]; simp, fun first writer last inside => ?_⟩
  refine apart first writer ⟨last, ?_⟩
  rw [← split, inside]
  simp

end Redirected

/-- When a scan of a block moves the uses of a load, or moves uses to a load, both ends are loads,
not volatile, of one type and at that moment of one pointer; the target stands earlier in the block,
and every member between them that may write is a store the oracle put apart from the target when it
was scanned. The move is the first that the scan makes at its source: it comes from the lookup of
the source, and none that rekeying asks for has a load at an end. -/
theorem load_moves_cross_only_stores_apart {oracle : Oracle} {f : Func} {block : Nat} {o : Outcome}
    (passed : reuseBlock? oracle f block = some o) {earlier later : List Event}
    {source target : Nat} {users : List Nat}
    (reported : o.events = earlier ++ .redirected source target users :: later)
    (load : f.isLoad source = true ∨ f.isLoad target = true) :
    ∃ b before between rest type pointer,
      f.blocks[block]? = some b ∧
      b.members = before ++ target :: between ++ source :: rest ∧
      earlier = (Scan.run oracle block f (before ++ target :: between)).events ∧
      (f.after earlier).instruction? source = some (.load type pointer false) ∧
      (f.after earlier).instruction? target = some (.load type pointer false) ∧
      ∀ first writer last, between = first ++ writer :: last →
        PutApart oracle block f (before ++ target :: first) target writer := by
  obtain ⟨b, found, rfl⟩ := Option.map_eq_some_iff.mp passed
  have mem : b ∈ f.blocks := List.mem_of_getElem? found
  obtain ⟨done, index, rest, opening, more, members, before, inStep⟩ :=
    Scan.exists_step_of_event reported
  have inBlock : done ++ [index] <+: b.members := ⟨rest, by rw [members]; simp⟩
  have prior : done <+: b.members := (List.prefix_append done [index]).trans inBlock
  have consistent := Scan.consistent_run mem oracle block prior
  obtain ⟨rfl, rfl, key, isLoad, sourceKey, entry⟩ := first_of_isLoad mem inBlock inStep load
  rw [List.append_nil] at before
  obtain ⟨early, between, rfl, apart⟩ := exists_between (unharmed_run mem prior _ entry isLoad)
  obtain ⟨x, xFound, xKeyed⟩ := Func.key?_eq_some.mp sourceKey
  obtain ⟨y, yFound, yKeyed⟩ := Func.key?_eq_some.mp (consistent.current _ entry).2
  obtain ⟨type, pointer, rfl⟩ := Instruction.exists_load_of_key? xKeyed isLoad
  obtain rfl := Instruction.load_eq_of_key? xKeyed yKeyed
  refine ⟨b, early, between, rest, type, pointer, found, members, before, ?_, ?_, apart⟩
  · rw [before, ← consistent.func, xFound]
  · rw [before, ← consistent.func, yFound]

/-- Two loads of equal addresses, computed twice, with a store to another pointer between them. -/
def loadsAcrossStore : Func where
  name := "f"
  arguments := ["p", "q"]
  globals := []
  definitions :=
    [⟨.gep (.int 32) (.argument 0) [.const 1], some "g"⟩,
      ⟨.gep (.int 32) (.argument 0) [.const 1], some "h"⟩,
      ⟨.load (.int 32) (.inst 0) false, some "a"⟩,
      ⟨.store (.int 32) (.const 7) (.argument 1) false, none⟩,
      ⟨.load (.int 32) (.inst 1) false, some "b"⟩,
      ⟨.ret (some (.inst 4)), none⟩]
  blocks := [⟨"entry", [0, 1, 2, 3, 4, 5]⟩]
  placed := by decide

/-- Takes different pointers to be apart. -/
def Oracle.byPointer : Oracle := fun a b => if a.pointer = b.pointer then .must else .no

/-- What a scan of `loadsAcrossStore` reports before it comes to the second load. -/
def reportBeforeSecondLoad : List Event :=
  [.newExpression 0, .redirected 1 0 [4], .newExpression 2,
    .memoryWritten 3 0 0 [(⟨.inst 0, 4⟩, ⟨.argument 1, 4⟩)]]

/-- The second load becomes one of the same pointer once the second address is redirected, and its
uses are then moved across the store. -/
theorem load_moves_loadsAcrossStore :
    ∃ o, reuseBlock? .byPointer loadsAcrossStore 0 = some o ∧
      o.events = reportBeforeSecondLoad ++ .redirected 4 2 [5] :: [] ∧
      loadsAcrossStore.isLoad 4 = true ∧
      ∃ b before between rest type pointer,
        loadsAcrossStore.blocks[0]? = some b ∧
        b.members = before ++ 2 :: between ++ 4 :: rest ∧
        reportBeforeSecondLoad =
          (Scan.run .byPointer 0 loadsAcrossStore (before ++ 2 :: between)).events ∧
        (loadsAcrossStore.after reportBeforeSecondLoad).instruction? 4 =
          some (.load type pointer false) ∧
        (loadsAcrossStore.after reportBeforeSecondLoad).instruction? 2 =
          some (.load type pointer false) ∧
        ∀ first writer last, between = first ++ writer :: last →
          PutApart .byPointer 0 loadsAcrossStore (before ++ 2 :: first) 2 writer := by
  have passed : reuseBlock? .byPointer loadsAcrossStore 0 =
      some (reuseMembers .byPointer loadsAcrossStore 0 [0, 1, 2, 3, 4, 5]) := rfl
  have reported : (reuseMembers .byPointer loadsAcrossStore 0 [0, 1, 2, 3, 4, 5]).events =
      reportBeforeSecondLoad ++ .redirected 4 2 [5] :: [] := by decide +kernel
  exact ⟨_, passed, reported, by decide,
    load_moves_cross_only_stores_apart passed reported (.inl (by decide))⟩

end BlockReuse
