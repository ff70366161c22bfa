import BlockReuse.Proofs.Rekeying

/-!
# Entry order — the order of a table's entries does not show

A table is a list of entries with different keys, and nothing is said about their order. Here a
shuffler puts the entries in another order before every operation on the table, as it likes, and the
scan is acted out again on such a table. Both scans go through the same states, but for the order of
the entries (`ShuffledScan.Matches`): a look-up depends on the entries alone, for no two have one
key, and every other operation keeps, drops or adds entries one by one. The order shows only in the
order of the questions that one write asks.
-/

set_option autoImplicit false

namespace BlockReuse

/-! ## Scans on a shuffled table -/

/-- Puts the entries of a table in some order, which may depend on how many operations were made on
the table before. -/
structure Shuffler where
  shuffle : Nat → ExpressionTable → ExpressionTable
  perm : ∀ operations t, (shuffle operations t).entries.Perm t.entries

/-- A table and the number of operations that were made on it. -/
structure ShuffledTable where
  table : ExpressionTable
  operations : Nat

/-- What is left on a shuffled table when no redirection waits. -/
structure ShuffledSettled where
  func : Func
  table : ShuffledTable
  events : List Event

/-- The state between two steps of a scan on a shuffled table. -/
structure ShuffledScan where
  func : Func
  table : ShuffledTable
  scanned : List Nat
  events : List Event

/-- Counts an instruction among the scanned ones. -/
def ShuffledScan.visit (s : ShuffledScan) (index : Nat) : ShuffledScan :=
  { s with scanned := s.scanned ++ [index] }

namespace Shuffler

variable (a : Shuffler)

/-- The table in front of the next operation. -/
def next (t : ShuffledTable) : ShuffledTable := ⟨a.shuffle t.operations t.table, t.operations + 1⟩

/-- The table behind an operation that changes it. -/
def change (operation : ExpressionTable → ExpressionTable) (t : ShuffledTable) : ShuffledTable :=
  { a.next t with table := operation (a.next t).table }

/-- Keys a user of a moved result again, as `rekey` does. -/
def rekey (f : Func) (scanned : List Nat)
    (state : ShuffledTable × List (Redirection scanned)) (user : Nat) :
    ShuffledTable × List (Redirection scanned) :=
  let (t, pending) := state
  if user ∈ scanned then
    let t := a.change (·.eraseRepresentative user) t
    match f.pureKey? user with
    | none => (t, pending)
    | some key =>
      let t := a.next t
      match t.table.find? key with
      | none => (a.change (·.insert key user) t, pending)
      | some other =>
        if h : scanned.idxOf user < scanned.idxOf other then
          (a.change (·.insert key user) t, ⟨other, user, h⟩ :: pending)
        else if h : scanned.idxOf other < scanned.idxOf user then
          (t, ⟨user, other, h⟩ :: pending)
        else (t, pending)
  else (t, pending)

end Shuffler

/-! ## Tables with the same entries -/

namespace ExpressionTable

variable {t t' : ExpressionTable}

theorem find?_of_perm (same : t.entries.Perm t'.entries) (key : ExpressionKey) :
    t.find? key = t'.find? key := by
  ext index
  rw [find?_eq_some, find?_eq_some, same.mem_iff]

theorem perm_retain (same : t.entries.Perm t'.entries) (keep : Entry → Bool) :
    (t.retain keep).entries.Perm (t'.retain keep).entries :=
  same.filter keep

theorem perm_insert (same : t.entries.Perm t'.entries) (key : ExpressionKey) (index : Nat) :
    (t.insert key index).entries.Perm (t'.insert key index).entries :=
  (perm_retain same _).cons _

end ExpressionTable

namespace Shuffler

variable {a : Shuffler} {t : ShuffledTable} {table : ExpressionTable}

theorem perm_next (same : t.table.entries.Perm table.entries) :
    (a.next t).table.entries.Perm table.entries :=
  (a.perm _ _).trans same

theorem perm_change {operation : ExpressionTable → ExpressionTable}
    (keeps : ∀ {t t' : ExpressionTable}, t.entries.Perm t'.entries →
      (operation t).entries.Perm (operation t').entries)
    (same : t.table.entries.Perm table.entries) :
    (a.change operation t).table.entries.Perm (operation table).entries :=
  keeps (perm_next same)

/-- The same entries, and the same redirections that wait. -/
structure Matches {scanned : List Nat} (state : ShuffledTable × List (Redirection scanned))
    (plain : ExpressionTable × List (Redirection scanned)) : Prop where
  entries : state.1.table.entries.Perm plain.1.entries
  pending : state.2 = plain.2

/-- Keying a user again asks for the same redirections and leaves the same entries. -/
theorem rekey_matches (f : Func) {scanned : List Nat}
    {state : ShuffledTable × List (Redirection scanned)}
    {plain : ExpressionTable × List (Redirection scanned)} (both : Matches state plain)
    (user : Nat) :
    Matches (a.rekey f scanned state user) (BlockReuse.rekey f scanned plain user) := by
  obtain ⟨t, pending⟩ := state
  obtain ⟨table, _⟩ := plain
  obtain ⟨same, rfl⟩ := both
  have erased : (a.change (·.eraseRepresentative user) t).table.entries.Perm
      (table.eraseRepresentative user).entries :=
    perm_change (fun same => ExpressionTable.perm_retain same _) same
  have looked := perm_next (a := a) erased
  have inserted : ∀ key : ExpressionKey,
      (a.change (·.insert key user)
        (a.next (a.change (·.eraseRepresentative user) t))).table.entries.Perm
        ((table.eraseRepresentative user).insert key user).entries := fun key =>
    perm_change (fun same => ExpressionTable.perm_insert same key user) looked
  have rekeyed := rekeyed_rekey f scanned table pending user
  generalize BlockReuse.rekey f scanned (table, pending) user = out at rekeyed ⊢
  cases rekeyed with
  | unseen unseen =>
    simp only [rekey, if_neg unseen]
    exact ⟨same, rfl⟩
  | dropped seen unkeyed =>
    simp only [rekey, if_pos seen, unkeyed]
    exact ⟨erased, rfl⟩
  | fresh seen keyed missing =>
    rw [← ExpressionTable.find?_of_perm looked] at missing
    simp only [rekey, if_pos seen, keyed, missing]
    exact ⟨inserted _, rfl⟩
  | first seen keyed found earlier =>
    rw [← ExpressionTable.find?_of_perm looked] at found
    simp only [rekey, if_pos seen, keyed, found, dif_pos earlier]
    exact ⟨inserted _, rfl⟩
  | later seen keyed found earlier =>
    rw [← ExpressionTable.find?_of_perm looked] at found
    simp only [rekey, if_pos seen, keyed, found, dif_neg (Nat.lt_asymm earlier), dif_pos earlier]
    exact ⟨looked, rfl⟩
  | level seen keyed found place =>
    rw [← ExpressionTable.find?_of_perm looked] at found
    simp only [rekey, if_pos seen, keyed, found, place, dif_neg (Nat.lt_irrefl _)]
    exact ⟨looked, rfl⟩

/-- The same for users keyed again one after the other. -/
theorem foldl_rekey_matches (f : Func) {scanned : List Nat} (users : List Nat)
    {state : ShuffledTable × List (Redirection scanned)}
    {plain : ExpressionTable × List (Redirection scanned)} (both : Matches state plain) :
    Matches (users.foldl (a.rekey f scanned) state)
      (users.foldl (BlockReuse.rekey f scanned) plain) := by
  induction users generalizing state plain with
  | nil => exact both
  | cons user users ih => exact ih (rekey_matches f both user)

end Shuffler

namespace Shuffler

variable (a : Shuffler)

/-- Works off redirections, the newest first, as `settle` does. -/
def settle (f : Func) (t : ShuffledTable) (scanned : List Nat)
    (pending : List (Redirection scanned)) : ShuffledSettled :=
  match pending with
  | [] => ⟨f, t, []⟩
  | r :: pending =>
    let users := f.usersOf r.source
    let moved := f.redirectUses r.source (.inst r.target)
    let rekeyed := users.foldl (a.rekey moved scanned) (t, pending)
    let rest := settle moved rekeyed.1 scanned rekeyed.2
    { rest with events := .redirected r.source r.target users :: rest.events }
termination_by redirectionBound f scanned pending.length
decreasing_by
  have same : Matches (t, pending) (t.table, pending) := ⟨.refl _, rfl⟩
  rw [(foldl_rekey_matches _ _ same).pending]
  exact redirectionBound_lt r pending f t.table

/-- Ends the entries that the write of an instruction may change, if it may write. -/
def passWrite (s : ShuffledScan) (oracle : Oracle) (block index : Nat) (x : Instruction Value) :
    ShuffledScan :=
  if x.mayWrite then
    let t := a.next s.table
    let after := invalidate t.table s.func oracle x
    { s with
      table := { t with table := after.table }
      events :=
        s.events ++ [.memoryWritten index block (t.table.size - after.table.size) after.queries] }
  else s

/-- Looks up an instruction that was just visited, which represents its key if none does yet. -/
def lookUp (s : ShuffledScan) (index : Nat) (key : ExpressionKey) : ShuffledScan :=
  let t := a.next s.table
  match t.table.lookupOrInsert key index with
  | (none, table) =>
    { s with
      table := { t with table := table }
      events := s.events ++ [.newExpression index] }
  | (some representative, table) =>
    if h : s.scanned.idxOf representative < s.scanned.idxOf index then
      let settled :=
        a.settle s.func { t with table := table } s.scanned [⟨index, representative, h⟩]
      { s with
        func := settled.func
        table := settled.table
        events := s.events ++ settled.events }
    else { s with table := { t with table := table } }

/-- One step: the member `index` of the block. -/
def step (oracle : Oracle) (block : Nat) (s : ShuffledScan) (index : Nat) : ShuffledScan :=
  match s.func.instruction? index with
  | none => s.visit index
  | some x =>
    let s := (a.passWrite s oracle block index x).visit index
    match x.key? with
    | none => s
    | some key => a.lookUp s index key

/-- The scan of a list of members. -/
def run (oracle : Oracle) (block : Nat) (f : Func) (members : List Nat) : ShuffledScan :=
  members.foldl (a.step oracle block) ⟨f, ⟨.empty, 0⟩, [], []⟩

/-- Reuses results within one block, if the function has it. -/
def reuseBlock? (oracle : Oracle) (f : Func) (block : Nat) : Option Outcome :=
  f.blocks[block]?.map fun b =>
    let scan := a.run oracle block f b.members
    ⟨scan.func, scan.events⟩

end Shuffler

/-! ## The same scan in another order -/

/-- Equal but for the order of the questions that a write asked. -/
inductive Event.Alike : Event → Event → Prop
  | same (event : Event) : Alike event event
  | asked {writer block removed : Nat} {queries queries' : List (Location × Location)} :
    queries.Perm queries' →
      Alike (.memoryWritten writer block removed queries)
        (.memoryWritten writer block removed queries')

theorem forall₂_alike_refl (events : List Event) : List.Forall₂ Event.Alike events events :=
  List.forall₂_same.mpr fun event _ => .same event

/-- A scan on a shuffled table stands where a scan stands, but for the order of the entries. -/
structure ShuffledScan.Matches (shuffled : ShuffledScan) (s : Scan) : Prop where
  func : shuffled.func = s.func
  entries : shuffled.table.table.entries.Perm s.table.entries
  scanned : shuffled.scanned = s.scanned
  events : List.Forall₂ Event.Alike shuffled.events s.events

theorem ShuffledScan.Matches.visit {shuffled : ShuffledScan} {s : Scan}
    (both : shuffled.Matches s) (index : Nat) : (shuffled.visit index).Matches (s.visit index) :=
  ⟨both.func, both.entries, congrArg (· ++ [index]) both.scanned, both.events⟩

namespace Shuffler

variable {a : Shuffler} {shuffled : ShuffledScan} {s : Scan}

/-- Working off redirections makes the same moves. -/
theorem settle_matches {scanned : List Nat} (f : Func) {t : ShuffledTable}
    {pending : List (Redirection scanned)}
    {plain : ExpressionTable × List (Redirection scanned)} (both : Matches (t, pending) plain) :
    (a.settle f t scanned pending).func = (BlockReuse.settle f plain.1 scanned plain.2).func ∧
      (a.settle f t scanned pending).table.table.entries.Perm
        (BlockReuse.settle f plain.1 scanned plain.2).table.entries ∧
      (a.settle f t scanned pending).events =
        (BlockReuse.settle f plain.1 scanned plain.2).events := by
  fun_induction Shuffler.settle a f t scanned pending generalizing plain with
  | case1 f t =>
    obtain ⟨table, _⟩ := plain
    obtain ⟨same, rfl⟩ := both
    simp only [BlockReuse.settle]
    exact ⟨trivial, same, trivial⟩
  | case2 f t r pending users moved rekeyed rest =>
    rename_i ih
    obtain ⟨table, _⟩ := plain
    obtain ⟨same, rfl⟩ := both
    have next : Matches rekeyed (users.foldl (BlockReuse.rekey moved scanned) (table, pending)) :=
      foldl_rekey_matches moved users ⟨same, rfl⟩
    obtain ⟨func, entries, events⟩ := ih next
    simp only [BlockReuse.settle]
    exact ⟨func, entries, congrArg _ events⟩

/-- A write ends the same entries and asks the same questions. -/
theorem passWrite_matches (both : shuffled.Matches s) (oracle : Oracle) (block index : Nat)
    (x : Instruction Value) :
    (a.passWrite shuffled oracle block index x).Matches (s.passWrite oracle block index x) := by
  have looked := perm_next (a := a) both.entries
  have kept := ExpressionTable.perm_retain looked (outlives s.func oracle x)
  have asked := looked.filterMap (clobberQuery? s.func x)
  simp only [passWrite, Scan.passWrite, both.func, ExpressionTable.size, invalidate]
  split
  · refine ⟨rfl, kept, both.scanned, List.rel_append both.events (.cons ?_ .nil)⟩
    rw [looked.length_eq, kept.length_eq]
    exact .asked asked
  · exact both

/-- A look-up finds the same representative and makes the same moves. -/
theorem lookUp_matches (both : shuffled.Matches s) (index : Nat) (key : ExpressionKey) :
    (a.lookUp shuffled index key).Matches (s.lookUp index key) := by
  obtain ⟨f, t, scanned, events⟩ := shuffled
  obtain ⟨rfl, same, rfl, alike⟩ := both
  have looked := perm_next (a := a) same
  have sameFind := ExpressionTable.find?_of_perm looked key
  cases found : s.table.find? key with
  | none =>
    rw [found] at sameFind
    simp only [lookUp, Scan.lookUp, ExpressionTable.lookupOrInsert, sameFind, found]
    exact ⟨rfl, ExpressionTable.perm_insert looked key index, rfl,
      List.rel_append alike (forall₂_alike_refl _)⟩
  | some representative =>
    rw [found] at sameFind
    simp only [lookUp, Scan.lookUp, ExpressionTable.lookupOrInsert, sameFind, found]
    split
    · next earlier =>
      have both : Matches (a.next t, [⟨index, representative, earlier⟩])
          (s.table, [⟨index, representative, earlier⟩]) := ⟨looked, rfl⟩
      obtain ⟨func, entries, events⟩ := settle_matches (a := a) s.func both
      refine ⟨func, entries, rfl, List.rel_append alike ?_⟩
      dsimp only at events ⊢
      rw [events]
      exact forall₂_alike_refl _
    · exact ⟨rfl, looked, rfl, alike⟩

/-- Both scans take the same step. -/
theorem step_matches (both : shuffled.Matches s) (oracle : Oracle) (block index : Nat) :
    (a.step oracle block shuffled index).Matches (s.step oracle block index) := by
  cases reached : s.func.instruction? index with
  | none =>
    simp only [step, Scan.step, both.func, reached]
    exact both.visit index
  | some x =>
    have passed := (passWrite_matches (a := a) both oracle block index x).visit index
    simp only [step, Scan.step, both.func, reached]
    cases x.key? with
    | none => exact passed
    | some key => exact lookUp_matches passed index key

/-- Both scans stay together to the end. -/
theorem run_matches (a : Shuffler) (oracle : Oracle) (block : Nat) (f : Func)
    (members : List Nat) :
    (a.run oracle block f members).Matches (Scan.run oracle block f members) := by
  have start : ShuffledScan.Matches ⟨f, ⟨.empty, 0⟩, [], []⟩ (Scan.start f) :=
    ⟨rfl, .refl _, rfl, .nil⟩
  rw [run, Scan.run]
  generalize (⟨f, ⟨.empty, 0⟩, [], []⟩ : ShuffledScan) = shuffled at start ⊢
  generalize Scan.start f = s at start ⊢
  induction members generalizing shuffled s with
  | nil => exact start
  | cons index members ih => exact ih _ _ (step_matches start oracle block index)

end Shuffler

/-! ## What a pass reports in any order -/

namespace Outcome

/-- The writes that were passed and how many entries each ended, in order. -/
def removals (o : Outcome) : List (Nat × Nat) :=
  o.events.filterMap fun
    | .memoryWritten writer _ removed _ => some (writer, removed)
    | _ => none

/-- The redirections with the users of each, in order. -/
def redirections (o : Outcome) : List (Nat × Nat × List Nat) :=
  o.events.filterMap fun
    | .redirected source target users => some (source, target, users)
    | _ => none

end Outcome

section Alike

variable {events events' : List Event} (alike : List.Forall₂ Event.Alike events events')

include alike

theorem filterMap_of_alike {β : Type} {g : Event → Option β}
    (blind : ∀ {event event'}, Event.Alike event event' → g event = g event') :
    events.filterMap g = events'.filterMap g := by
  induction alike with
  | nil => rfl
  | cons head _ ih => rw [List.filterMap_cons, List.filterMap_cons, blind head, ih]

theorem any_of_alike {p : Event → Bool}
    (blind : ∀ {event event'}, Event.Alike event event' → p event = p event') :
    events.any p = events'.any p := by
  induction alike with
  | nil => rfl
  | cons head _ ih => rw [List.any_cons, List.any_cons, blind head, ih]

theorem flatMap_perm_of_alike {β : Type} {g : Event → List β}
    (reordered : ∀ {event event'}, Event.Alike event event' → (g event).Perm (g event')) :
    (events.flatMap g).Perm (events'.flatMap g) := by
  induction alike with
  | nil => exact .nil
  | cons head _ ih => exact (reordered head).append ih

end Alike

/-- Whatever the order in which the entries of the table are found at each operation on it, a pass
over a block ends with the same function, moves uses in the same redirections and ends as many
entries at each write, and it asks the oracle the same questions as often. -/
theorem same_outcome_of_shuffler (a : Shuffler) {oracle : Oracle} {f : Func} {block : Nat}
    {o : Outcome} (passed : reuseBlock? oracle f block = some o) :
    ∃ shuffled, a.reuseBlock? oracle f block = some shuffled ∧
      shuffled.func = o.func ∧ shuffled.modified = o.modified ∧
      shuffled.removals = o.removals ∧ shuffled.redirections = o.redirections ∧
      shuffled.queries.Perm o.queries := by
  obtain ⟨b, found, rfl⟩ := Option.map_eq_some_iff.mp passed
  have both := a.run_matches oracle block f b.members
  refine ⟨⟨_, _⟩, by rw [Shuffler.reuseBlock?, found]; rfl, both.func, ?_, ?_, ?_, ?_⟩
  · refine any_of_alike both.events ?_
    rintro _ _ (_ | _) <;> rfl
  · refine filterMap_of_alike both.events ?_
    rintro _ _ (_ | _) <;> rfl
  · refine filterMap_of_alike both.events ?_
    rintro _ _ (_ | _) <;> rfl
  · refine flatMap_perm_of_alike both.events ?_
    rintro _ _ (_ | asked)
    · exact .refl _
    · exact asked

/-- Turns the entries around before each operation. -/
def Shuffler.reverse : Shuffler where
  shuffle _ t :=
    { entries := t.entries.reverse
      distinct := by
        rw [List.map_reverse]
        exact List.nodup_reverse.mpr t.distinct }
  perm _ t := t.entries.reverse_perm

/-- Two loads in front of a store, and two sums behind it. -/
def loadsBeforeStore : Func where
  name := "f"
  arguments := ["p", "q", "r"]
  globals := []
  definitions :=
    [⟨.load (.int 32) (.argument 0) false, some "a"⟩,
      ⟨.load (.int 32) (.argument 1) false, some "b"⟩,
      ⟨.store (.int 32) (.const 0) (.argument 2) false, none⟩,
      ⟨.binary .add (.inst 0) (.inst 1), some "s"⟩,
      ⟨.binary .add (.inst 0) (.inst 1), some "t"⟩, ⟨.ret (some (.inst 4)), none⟩]
  blocks := [⟨"entry", [0, 1, 2, 3, 4, 5]⟩]
  placed := by decide

/-- With the entries turned around, the store asks about the loads in the other order; the second
sum is redirected to the first all the same. -/
theorem same_outcome_of_reverse :
    ∃ o shuffled, reuseBlock? .conservative loadsBeforeStore 0 = some o ∧
      Shuffler.reverse.reuseBlock? .conservative loadsBeforeStore 0 = some shuffled ∧
      o.redirections = [(4, 3, [5])] ∧ shuffled.redirections = [(4, 3, [5])] ∧
      o.removals = [(2, 2)] ∧ shuffled.removals = [(2, 2)] ∧
      shuffled.queries = o.queries.reverse ∧ shuffled.queries ≠ o.queries := by
  have passed : ∃ o, reuseBlock? .conservative loadsBeforeStore 0 = some o ∧
      o.redirections = [(4, 3, [5])] ∧ o.removals = [(2, 2)] := by
    refine ⟨_, rfl, ?_, ?_⟩ <;> decide +kernel
  obtain ⟨o, passed, moves, ended⟩ := passed
  obtain ⟨shuffled, shuffledPassed, -, -, sameEnded, sameMoves, -⟩ :=
    same_outcome_of_shuffler .reverse passed
  refine ⟨o, shuffled, passed, shuffledPassed, moves, sameMoves.trans moves, ended,
    sameEnded.trans ended, ?_⟩
  obtain rfl := Option.some.inj passed
  obtain rfl := Option.some.inj shuffledPassed
  constructor <;> decide +kernel

end BlockReuse
