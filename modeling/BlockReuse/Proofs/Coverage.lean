import BlockReuse.Proofs.Termination

/-!
# Coverage — the table holds what a scan of the function as it is would hold

That a table is current says that its entries are right. Here it is shown that none is missing:
between two steps every scanned member that reads no memory has its key in the table, under the
earliest member that has it. A move breaks this for all of its users at once, and it is restored for
them one by one; what holds in between is that the members that are no users to come are covered
(`Covers`). A user that is keyed again may take the entry away that covers another member, but only
if the two have one key now, and then the user puts the entry back.

The same invariant keeps account of duplicates: a member that does not represent its key itself has
been redirected, or a redirection of it waits.
-/

set_option autoImplicit false

namespace BlockReuse

/-- The key is in the table, under `index` itself or under an earlier member; in the second case
`moved` holds of `index`. -/
def Covered (scanned : List Nat) (moved : Nat → Prop) (table : ExpressionTable)
    (key : ExpressionKey) (index : Nat) : Prop :=
  ∃ first, ⟨key, first⟩ ∈ table.entries ∧
    (first = index ∨ scanned.idxOf first < scanned.idxOf index ∧ moved index)

/-- Every scanned member that reads no memory is covered, but for those in `remaining`. -/
def Covers (f : Func) (scanned remaining : List Nat) (moved : Nat → Prop)
    (table : ExpressionTable) : Prop :=
  ∀ index ∈ scanned, index ∉ remaining → ∀ key, f.pureKey? index = some key →
    Covered scanned moved table key index

/-- `moved` holds of the instruction, or a redirection of its uses waits. -/
def MovedOrWaits {scanned : List Nat} (moved : Nat → Prop) (pending : List (Redirection scanned))
    (index : Nat) : Prop :=
  moved index ∨ ∃ r ∈ pending, r.source = index

/-- A redirection of the uses of an instruction is among the events. -/
def Redirected (events : List Event) (index : Nat) : Prop :=
  ∃ target users, .redirected index target users ∈ events

theorem redirected_append {first second : List Event} {index : Nat} :
    Redirected (first ++ second) index ↔ Redirected first index ∨ Redirected second index := by
  simp only [Redirected, List.mem_append, exists_or]

theorem Covered.mono {scanned : List Nat} {moved moved' : Nat → Prop} {table : ExpressionTable}
    {key : ExpressionKey} {index : Nat} (covered : Covered scanned moved table key index)
    (implies : moved index → moved' index) : Covered scanned moved' table key index := by
  obtain ⟨first, entry, same | ⟨earlier, known⟩⟩ := covered
  · exact ⟨first, entry, .inl same⟩
  · exact ⟨first, entry, .inr ⟨earlier, implies known⟩⟩

theorem Covers.mono {f : Func} {scanned remaining : List Nat} {moved moved' : Nat → Prop}
    {table : ExpressionTable} (covers : Covers f scanned remaining moved table)
    (implies : ∀ index, moved index → moved' index) : Covers f scanned remaining moved' table :=
  fun index seen settled key keyed => (covers index seen settled key keyed).mono (implies index)

theorem MovedOrWaits.cons {scanned : List Nat} {moved : Nat → Prop}
    {pending : List (Redirection scanned)} {index : Nat} (r : Redirection scanned)
    (known : MovedOrWaits moved pending index) : MovedOrWaits moved (r :: pending) index := by
  rcases known with known | ⟨waiting, mem, source⟩
  · exact .inl known
  · exact .inr ⟨waiting, List.mem_cons_of_mem _ mem, source⟩

theorem movedOrWaits_self {scanned : List Nat} {moved : Nat → Prop}
    (pending : List (Redirection scanned)) (r : Redirection scanned) :
    MovedOrWaits moved (r :: pending) r.source :=
  .inr ⟨r, List.mem_cons_self, rfl⟩

theorem ExpressionTable.eq_of_mem {t : ExpressionTable} {key : ExpressionKey} {i j : Nat}
    (first : ⟨key, i⟩ ∈ t.entries) (second : ⟨key, j⟩ ∈ t.entries) : i = j :=
  Option.some.inj ((find?_eq_some.mpr first).symm.trans (find?_eq_some.mpr second))

theorem ExpressionTable.mem_of_find?_eraseRepresentative {t : ExpressionTable} {user other : Nat}
    {key : ExpressionKey} (found : (t.eraseRepresentative user).find? key = some other) :
    ⟨key, other⟩ ∈ t.entries ∧ other ≠ user :=
  mem_eraseRepresentative.mp (find?_eq_some.mp found)

/-! ## Keying users again -/

section Users

variable {f : Func} {scanned : List Nat} {moved : Nat → Prop} {table : ExpressionTable}
  {pending : List (Redirection scanned)} {user : Nat} {key : ExpressionKey}

/-- A user that is keyed again is covered: it represents its key, or a redirection of it waits. -/
theorem rekey_covered_user (reps : ∀ e ∈ table.entries, e.representative ∈ scanned)
    (seen : user ∈ scanned) (keyed : f.pureKey? user = some key) :
    Covered scanned (MovedOrWaits moved (rekey f scanned (table, pending) user).2)
      (rekey f scanned (table, pending) user).1 key user := by
  have rekeyed := rekeyed_rekey f scanned table pending user
  generalize rekey f scanned (table, pending) user = out at rekeyed ⊢
  cases rekeyed with
  | unseen unseen => exact absurd seen unseen
  | dropped _ unkeyed => exact absurd (keyed.symm.trans unkeyed) (Option.some_ne_none _)
  | fresh _ userKey _ =>
    obtain rfl := Option.some.inj (keyed.symm.trans userKey)
    exact ⟨user, ExpressionTable.mem_insert.mpr (.inl rfl), .inl rfl⟩
  | first _ userKey _ _ =>
    obtain rfl := Option.some.inj (keyed.symm.trans userKey)
    exact ⟨user, ExpressionTable.mem_insert.mpr (.inl rfl), .inl rfl⟩
  | @later _ other _ userKey found earlier =>
    obtain rfl := Option.some.inj (keyed.symm.trans userKey)
    exact ⟨other, ExpressionTable.find?_eq_some.mp found, .inr ⟨earlier, movedOrWaits_self _ _⟩⟩
  | level _ _ found place =>
    obtain ⟨entry, other⟩ := ExpressionTable.mem_of_find?_eraseRepresentative found
    exact absurd ((List.idxOf_inj (reps _ entry)).mp place) other

/-- Any other member stays covered, if an entry that the user has under its key is under the key
of the user too. -/
theorem rekey_covered_other {index : Nat}
    (reps : ∀ e ∈ table.entries, e.representative ∈ scanned)
    (own : ⟨key, user⟩ ∈ table.entries → f.pureKey? user = some key)
    (covered : Covered scanned (MovedOrWaits moved pending) table key index) :
    Covered scanned (MovedOrWaits moved (rekey f scanned (table, pending) user).2)
      (rekey f scanned (table, pending) user).1 key index := by
  have kept : ∀ {first : Nat}, ⟨key, first⟩ ∈ table.entries → first ≠ user →
      ⟨key, first⟩ ∈ (table.eraseRepresentative user).entries :=
    fun entry other => ExpressionTable.mem_eraseRepresentative.mpr ⟨entry, other⟩
  have rekeyed := rekeyed_rekey f scanned table pending user
  generalize rekey f scanned (table, pending) user = out at rekeyed ⊢
  cases rekeyed with
  | unseen _ => exact covered
  | dropped _ unkeyed =>
    obtain ⟨first, entry, place⟩ := covered
    refine ⟨first, kept entry ?_, place⟩
    rintro rfl
    exact absurd ((own entry).symm.trans unkeyed) (Option.some_ne_none _)
  | fresh _ userKey missing =>
    obtain ⟨first, entry, place⟩ := covered
    refine ⟨first, ExpressionTable.mem_insert.mpr ?_, place⟩
    by_cases taken : first = user
    · subst taken
      obtain rfl := Option.some.inj ((own entry).symm.trans userKey)
      exact .inl rfl
    · exact .inr ⟨kept entry taken, ExpressionTable.find?_eq_none.mp missing _ (kept entry taken)⟩
  | @first userKey other _ userKeyed found earlier =>
    obtain ⟨first, entry, place⟩ := covered
    obtain ⟨otherEntry, _⟩ := ExpressionTable.mem_of_find?_eraseRepresentative found
    by_cases replaced : key = userKey
    · -- the user takes the place of the member that represented the key so far
      subst replaced
      obtain rfl := ExpressionTable.eq_of_mem entry otherEntry
      refine ⟨user, ExpressionTable.mem_insert.mpr (.inl rfl), .inr ?_⟩
      rcases place with rfl | ⟨before, known⟩
      · exact ⟨earlier, movedOrWaits_self _ _⟩
      · exact ⟨Nat.lt_trans earlier before, known.cons _⟩
    · have survives : first ≠ user := by
        rintro rfl
        exact replaced (Option.some.inj ((own entry).symm.trans userKeyed))
      exact ⟨first, ExpressionTable.mem_insert.mpr (.inr ⟨kept entry survives, replaced⟩),
        place.imp_right (And.imp_right (·.cons _))⟩
  | later _ userKeyed found _ =>
    obtain ⟨first, entry, place⟩ := covered
    obtain ⟨otherEntry, different⟩ := ExpressionTable.mem_of_find?_eraseRepresentative found
    refine ⟨first, kept entry ?_, place.imp_right (And.imp_right (·.cons _))⟩
    rintro rfl
    obtain rfl := Option.some.inj ((own entry).symm.trans userKeyed)
    exact different (ExpressionTable.eq_of_mem otherEntry entry)
  | level _ _ found place =>
    obtain ⟨entry, other⟩ := ExpressionTable.mem_of_find?_eraseRepresentative found
    exact absurd ((List.idxOf_inj (reps _ entry)).mp place) other

/-- One user. -/
theorem rekey_covers {g : Value → Value} {remaining : List Nat}
    (fixed : ∀ index key, f.key? index = some key → key.map g = key)
    (stale : Stale f g scanned (user :: remaining) table)
    (covers : Covers f scanned (user :: remaining) (MovedOrWaits moved pending) table) :
    Covers f scanned remaining (MovedOrWaits moved (rekey f scanned (table, pending) user).2)
      (rekey f scanned (table, pending) user).1 := by
  intro index seen settled key keyed
  by_cases same : index = user
  · subst same
    exact rekey_covered_user stale.scanned seen keyed
  · have notWaiting : index ∉ user :: remaining := by
      rw [List.mem_cons, not_or]
      exact ⟨same, settled⟩
    refine rekey_covered_other stale.scanned ?_ (covers index seen notWaiting key keyed)
    intro entry
    obtain ⟨keyed, pure⟩ := Func.pureKey?_eq_some.mp keyed
    have userKey := stale.keyed _ entry
    rw [fixed index key keyed] at userKey
    exact Func.pureKey?_eq_some.mpr ⟨userKey, pure⟩

/-- All users, in order. -/
theorem foldl_rekey_covers {g : Value → Value}
    (fixed : ∀ index key, f.key? index = some key → key.map g = key) (users : List Nat)
    {state : ExpressionTable × List (Redirection scanned)}
    (stale : Stale f g scanned users state.1)
    (covers : Covers f scanned users (MovedOrWaits moved state.2) state.1) :
    Covers f scanned [] (MovedOrWaits moved (users.foldl (rekey f scanned) state).2)
      (users.foldl (rekey f scanned) state).1 := by
  induction users generalizing state with
  | nil => exact covers
  | cons user users ih =>
    exact ih (rekey_rekeyedTo fixed state.2 stale).stale (rekey_covers fixed stale covers)

end Users

/-! ## Working off redirections -/

theorem Func.pureKey?_redirectUses_of_not_mem {f : Func} {source index : Nat} (target : Nat)
    (unused : index ∉ f.usersOf source) :
    (f.redirectUses source (.inst target)).pureKey? index = f.pureKey? index := by
  rw [pureKey?, instruction?_redirectUses_of_not_mem target unused, pureKey?]

/-- A move and the rekeying behind it keep every member covered. -/
theorem Redirection.covers {scanned : List Nat} (r : Redirection scanned) {f : Func}
    {table : ExpressionTable} (current : table.Current f scanned)
    {pending : List (Redirection scanned)} {moved : Nat → Prop} (known : moved r.source)
    (covers : Covers f scanned [] (MovedOrWaits moved (r :: pending)) table) :
    Covers (f.redirectUses r.source (.inst r.target)) scanned []
      (MovedOrWaits moved
        ((f.usersOf r.source).foldl (rekey (f.redirectUses r.source (.inst r.target)) scanned)
          (table, pending)).2)
      ((f.usersOf r.source).foldl (rekey (f.redirectUses r.source (.inst r.target)) scanned)
        (table, pending)).1 := by
  have distinct : r.target ≠ r.source := fun same => r.target_ne_source (congrArg Value.inst same)
  refine foldl_rekey_covers (fun _ _ keyed => key_map_moveUses distinct keyed) _
    (current.stale r.source r.target) ?_
  intro index seen notUser key keyed
  rw [Func.pureKey?_redirectUses_of_not_mem r.target notUser] at keyed
  refine (covers index seen List.not_mem_nil key keyed).mono ?_
  rintro (before | ⟨waiting, mem, rfl⟩)
  · exact .inl before
  · rcases List.mem_cons.mp mem with rfl | mem
    · exact .inl known
    · exact .inr ⟨waiting, mem, rfl⟩

/-- Once no redirection waits, every member is covered, and `moved` holds of those that do not
represent their keys if it holds of all that were redirected. -/
theorem settle_covers {f : Func} {table : ExpressionTable} {scanned : List Nat}
    {pending : List (Redirection scanned)} {moved : Nat → Prop}
    (current : table.Current f scanned)
    (covers : Covers f scanned [] (MovedOrWaits moved pending) table)
    (known : ∀ index, Redirected (settle f table scanned pending).events index → moved index) :
    Covers (settle f table scanned pending).func scanned [] moved
      (settle f table scanned pending).table := by
  fun_induction settle f table scanned pending with
  | case1 f table =>
    refine covers.mono ?_
    rintro index (before | ⟨waiting, mem, -⟩)
    · exact before
    · cases mem
  | case2 f table r pending users after rekeyed rest ih =>
    have first : moved r.source := known r.source ⟨_, _, List.mem_cons_self⟩
    refine ih (r.rekeyed current pending).stale.current (r.covers current first covers) ?_
    rintro index ⟨target, users, mem⟩
    exact known index ⟨target, users, List.mem_cons_of_mem _ mem⟩

/-! ## The scan of a block -/

/-- One more scanned member leaves those covered that were. -/
theorem Covered.append {f : Func} {scanned : List Nat} {moved : Nat → Prop}
    {table : ExpressionTable} {key : ExpressionKey} {index : Nat}
    (current : table.Current f scanned) (seen : index ∈ scanned)
    (covered : Covered scanned moved table key index) (next : Nat) :
    Covered (scanned ++ [next]) moved table key index := by
  obtain ⟨first, entry, place⟩ := covered
  refine ⟨first, entry, place.imp_right fun ⟨earlier, known⟩ => ⟨?_, known⟩⟩
  rw [List.idxOf_append, if_pos (current _ entry).1, List.idxOf_append, if_pos seen]
  exact earlier

namespace Scan

variable {oracle : Oracle} {f : Func} {block : Nat} {b : Block} {s : Scan} {index : Nat}
  {x : Instruction Value}

/-- Every scanned member that reads no memory is covered, and those that do not represent their
keys have been redirected. -/
def Complete (s : Scan) : Prop := Covers s.func s.scanned [] (Redirected s.events) s.table

/-- Behind one more member, every member is covered if the new one is and no other lost what covers
it. -/
theorem covers_visit {moved : Nat → Prop} {table : ExpressionTable}
    (current : s.table.Current s.func s.scanned) (complete : s.Complete)
    (known : ∀ i, Redirected s.events i → moved i)
    (kept : ∀ key first, key.opcode.isLoad = false → ⟨key, first⟩ ∈ s.table.entries →
      ⟨key, first⟩ ∈ table.entries)
    (new : ∀ key, s.func.pureKey? index = some key →
      Covered (s.scanned ++ [index]) moved table key index) :
    Covers s.func (s.scanned ++ [index]) [] moved table := by
  intro member seen notUser key keyed
  rcases List.mem_append.mp seen with seen | last
  · obtain ⟨first, entry, place⟩ :=
      (complete member seen notUser key keyed).append current seen index
    have pure := (Func.pureKey?_eq_some.mp keyed).2
    exact ⟨first, kept key first pure entry, place.imp_right (And.imp_right (known member))⟩
  · obtain rfl := List.mem_singleton.mp last
    exact new key keyed

theorem Complete.step (complete : s.Complete) (current : s.table.Current s.func s.scanned)
    (new : index ∉ s.scanned) (found : s.func.instruction? index = some x) :
    (Scan.step oracle block s index).Complete := by
  have stepped := stepped_step oracle block current new found
  have indexKey : ∀ {key : ExpressionKey}, s.func.pureKey? index = some key →
      x.key? = some key := by
    intro key keyed
    obtain ⟨y, same, keyed⟩ := Func.key?_eq_some.mp (Func.pureKey?_eq_some.mp keyed).1
    rw [Option.some.inj (found.symm.trans same)]
    exact keyed
  generalize Scan.step oracle block s index = next at stepped ⊢
  cases stepped with
  | passed unkeyed =>
    have absent : ∀ {P : ExpressionKey → Prop} (key : ExpressionKey),
        s.func.pureKey? index = some key → P key := fun key keyed =>
      absurd ((indexKey keyed).symm.trans unkeyed) (Option.some_ne_none _)
    unfold passWrite visit
    split
    · refine covers_visit (s := s) current complete
        (fun i known => redirected_append.mpr (.inl known))
        (fun key first pure entry => ExpressionTable.mem_retain.mpr ⟨entry, ?_⟩) absent
      refine outlives_of_leavesAlone (current _ entry).2 found fun load => ?_
      rw [pure] at load
      cases load
    · exact covers_visit current complete (fun _ known => known) (fun _ _ _ entry => entry) absent
  | @fresh key keyed missing =>
    refine covers_visit current complete (fun i known => redirected_append.mpr (.inl known))
      (fun key first _ entry => ?_) fun other otherKeyed => ?_
    · exact ExpressionTable.mem_insert.mpr
        (.inr ⟨entry, ExpressionTable.find?_eq_none.mp missing _ entry⟩)
    · obtain rfl := Option.some.inj (keyed.symm.trans (indexKey otherKeyed))
      exact ⟨index, ExpressionTable.mem_insert.mpr (.inl rfl), .inl rfl⟩
  | @repeated key representative keyed hit earlier =>
    refine settle_covers (current_append current index) ?_
      fun _ known => redirected_append.mpr (.inr known)
    refine covers_visit current complete (fun _ known => .inl (redirected_append.mpr (.inl known)))
      (fun _ _ _ entry => entry) fun other otherKeyed => ?_
    obtain rfl := Option.some.inj (keyed.symm.trans (indexKey otherKeyed))
    exact ⟨representative, ExpressionTable.find?_eq_some.mp hit,
      .inr ⟨earlier, movedOrWaits_self [] _⟩⟩

/-- A scan is complete wherever it stands in a block of the function. -/
theorem complete_run (mem : b ∈ f.blocks) (oracle : Oracle) (block : Nat) {done : List Nat}
    (inBlock : done <+: b.members) : (run oracle block f done).Complete := by
  induction done using List.reverseRecOn with
  | nil =>
    intro index seen
    cases seen
  | append_singleton done index ih =>
    have before := (List.prefix_append done [index]).trans inBlock
    have consistent := consistent_run mem oracle block before
    have member : index ∈ b.members := inBlock.subset (by simp)
    obtain ⟨x, found⟩ := consistent.exists_instruction? mem member
    rw [run_append_singleton]
    refine (ih before).step consistent.current ?_ found
    rw [scanned_run]
    exact Func.not_mem_of_prefix mem inBlock

end Scan

/-! ## The table between two steps -/

/-- `first` is the earliest of the members in `done` that have the key `key`. -/
def Func.FirstWith (f : Func) (done : List Nat) (key : ExpressionKey) (first : Nat) : Prop :=
  first ∈ done ∧ f.key? first = some key ∧
    ∀ index ∈ done, f.key? index = some key → done.idxOf first ≤ done.idxOf index

theorem Entry.readsMemory_of_key? {e : Entry} {f : Func}
    (keyed : f.key? e.representative = some e.key) : e.readsMemory f = e.key.opcode.isLoad := by
  obtain ⟨x, found, keyed⟩ := Func.key?_eq_some.mp keyed
  rw [readsMemory, found, Option.any_some, Instruction.mayRead_of_key? keyed]

/-- A table that is current has one entry for each representative. -/
theorem ExpressionTable.Current.nodup_representatives {table : ExpressionTable} {f : Func}
    {scanned : List Nat} (current : table.Current f scanned) :
    (table.entries.map Entry.representative).Nodup := by
  refine List.Nodup.map_on ?_ (List.Nodup.of_map _ table.distinct)
  rintro ⟨key, first⟩ mem ⟨key', first'⟩ mem' same
  obtain rfl : first = first' := same
  have keys := (current _ mem).2.symm.trans (current _ mem').2
  obtain rfl : key = key' := Option.some.inj keys
  rfl

/-- In a scan that is complete, the entries that read no memory are those of the earliest scanned
members. -/
theorem Scan.Complete.mem_iff {s : Scan} (complete : s.Complete)
    (current : s.table.Current s.func s.scanned) (e : Entry) :
    e ∈ s.table.entries ∧ e.readsMemory s.func = false ↔
      (∃ index ∈ s.scanned, s.func.pureKey? index = some e.key) ∧
        s.func.FirstWith s.scanned e.key e.representative := by
  obtain ⟨key, first⟩ := e
  constructor
  · rintro ⟨entry, pure⟩
    obtain ⟨seen, keyed⟩ := current _ entry
    rw [Entry.readsMemory_of_key? keyed] at pure
    refine ⟨⟨first, seen, Func.pureKey?_eq_some.mpr ⟨keyed, pure⟩⟩, seen, keyed, ?_⟩
    intro index indexSeen indexKeyed
    obtain ⟨other, otherEntry, place⟩ := complete index indexSeen List.not_mem_nil key
      (Func.pureKey?_eq_some.mpr ⟨indexKeyed, pure⟩)
    obtain rfl := ExpressionTable.eq_of_mem entry otherEntry
    rcases place with rfl | ⟨earlier, -⟩
    · exact Nat.le_refl _
    · exact Nat.le_of_lt earlier
  · rintro ⟨⟨index, -, keyed⟩, seen, firstKeyed, earliest⟩
    have pure := (Func.pureKey?_eq_some.mp keyed).2
    obtain ⟨other, entry, place⟩ := complete first seen List.not_mem_nil key
      (Func.pureKey?_eq_some.mpr ⟨firstKeyed, pure⟩)
    obtain ⟨otherSeen, otherKeyed⟩ := current _ entry
    have same : other = first := by
      rcases place with same | ⟨earlier, -⟩
      · exact same
      · exact absurd (earliest other otherSeen otherKeyed) (Nat.not_le_of_lt earlier)
    subst same
    exact ⟨entry, (Entry.readsMemory_of_key? (current _ entry).2).trans pure⟩

/-- Wherever a scan stands between two steps, the entries whose representatives read no memory are
exactly the keys that scanned instructions of this kind have now, each under the earliest scanned
instruction that has it; the representative of any other entry is a scanned load, not volatile, that
has the key of the entry now; and no instruction represents two entries. -/
theorem mem_table_run_iff_firstWith {oracle : Oracle} {f : Func} {block : Nat} {b : Block}
    (found : f.blocks[block]? = some b) {done : List Nat} (inBlock : done <+: b.members) :
    let s := Scan.run oracle block f done
    (∀ e : Entry, e ∈ s.table.entries ∧ e.readsMemory s.func = false ↔
      (∃ index ∈ done, s.func.pureKey? index = some e.key) ∧
        s.func.FirstWith done e.key e.representative) ∧
    (∀ e ∈ s.table.entries, e.readsMemory s.func = true →
      e.representative ∈ done ∧ s.func.key? e.representative = some e.key ∧
        ∃ type pointer, s.func.instruction? e.representative = some (.load type pointer false)) ∧
    (s.table.entries.map Entry.representative).Nodup := by
  intro s
  have mem : b ∈ f.blocks := List.mem_of_getElem? found
  have current : s.table.Current s.func s.scanned :=
    (Scan.consistent_run mem oracle block inBlock).current
  have complete : s.Complete := Scan.complete_run mem oracle block inBlock
  have scanned : s.scanned = done := Scan.scanned_run oracle block f done
  rw [← scanned]
  refine ⟨complete.mem_iff current, ?_, current.nodup_representatives⟩
  intro e entry reads
  obtain ⟨seen, keyed⟩ := current e entry
  rw [Entry.readsMemory_of_key? keyed] at reads
  obtain ⟨x, xFound, xKeyed⟩ := Func.key?_eq_some.mp keyed
  obtain ⟨type, pointer, rfl⟩ := Instruction.exists_load_of_key? xKeyed reads
  exact ⟨seen, keyed, type, pointer, xFound⟩

/-- Behind the second sum of `latePhis` the second phi has the key of the first, which represents
it. -/
theorem mem_table_run_latePhis :
    [0, 1, 2, 3] <+: [0, 1, 2, 3, 4, 5] ∧
      (Scan.run .conservative 0 latePhis [0, 1, 2, 3]).func.key? 1 =
        some ⟨.phi [0], #v[some (.inst 2), none, none, none, none]⟩ ∧
      ⟨⟨.phi [0], #v[some (.inst 2), none, none, none, none]⟩, 0⟩ ∈
        (Scan.run .conservative 0 latePhis [0, 1, 2, 3]).table.entries := by
  have inBlock : [0, 1, 2, 3] <+: [0, 1, 2, 3, 4, 5] := by decide
  obtain ⟨pureEntries, -, -⟩ :=
    @mem_table_run_iff_firstWith .conservative latePhis 0 _ rfl _ inBlock
  refine ⟨inBlock, by decide +kernel, ((pureEntries ⟨_, 0⟩).mpr ⟨⟨0, ?_, ?_⟩, ?_, ?_, ?_⟩).1⟩
  all_goals decide +kernel

end BlockReuse
