import BlockReuse.Proofs.Moves

/-!
# Rekeying — the table stays current while uses are moved

A table is current when each entry's key is the key its representative has in the function as it is.
A move makes the entries of scanned users stale, all at once; they are then keyed again one by one,
and in between some entries are current and some are not. What holds throughout is that every entry,
stale or not, has the right key once the move is applied to it (`Stale`). That is enough to know
that an entry found under a user's new key really computes what the user computes.

Reads of memory are dropped from the table and never come back, so the redirections that rekeying
asks for are between instructions that read no memory.
-/

set_option autoImplicit false

namespace BlockReuse

/-- Every representative was scanned, and has the key of its entry. -/
def ExpressionTable.Current (t : ExpressionTable) (f : Func) (scanned : List Nat) : Prop :=
  ∀ e ∈ t.entries, e.representative ∈ scanned ∧ f.key? e.representative = some e.key

/-- `source` repeats `target`, which stands earlier: both have the key `key`. -/
structure Repeats (f : Func) (order : List Nat) (source target : Nat) (key : ExpressionKey) :
    Prop where
  mem : source ∈ order
  earlier : order.idxOf target < order.idxOf source
  source_key : f.key? source = some key
  target_key : f.key? target = some key

/-- `source` repeats `target`, and neither reads memory. -/
def RepeatsPurely (order : List Nat) (f : Func) (source target : Nat) : Prop :=
  ∃ key, Repeats f order source target key ∧ key.opcode.isLoad = false

/-- A change of all operands at once keeps repetitions. -/
theorem Repeats.mapOperands {f : Func} {order : List Nat} {source target : Nat}
    {key : ExpressionKey} (repeated : Repeats f order source target key) (g : Value → Value) :
    Repeats (f.mapOperands g) order source target (key.map g) where
  mem := repeated.mem
  earlier := repeated.earlier
  source_key := by simp [repeated.source_key]
  target_key := by simp [repeated.target_key]

/-- What stands before a member is a member. -/
theorem mem_of_idxOf_lt {order : List Nat} {earlier later : Nat} (mem : later ∈ order)
    (lt : order.idxOf earlier < order.idxOf later) : earlier ∈ order := by
  have inside := List.idxOf_lt_length_of_mem mem
  exact List.idxOf_lt_length_iff.mp (by omega)

/-- More members at the end change no place. -/
theorem Repeats.append {f : Func} {order : List Nat} {source target : Nat} {key : ExpressionKey}
    (repeated : Repeats f order source target key) (more : List Nat) :
    Repeats f (order ++ more) source target key where
  mem := List.mem_append_left more repeated.mem
  earlier := by
    have mem : target ∈ order := mem_of_idxOf_lt repeated.mem repeated.earlier
    rw [List.idxOf_append, if_pos mem, List.idxOf_append, if_pos repeated.mem]
    exact repeated.earlier
  source_key := repeated.source_key
  target_key := repeated.target_key

theorem RepeatsPurely.mapOperands {f : Func} {order : List Nat} {source target : Nat}
    (repeated : RepeatsPurely order f source target) (g : Value → Value) :
    RepeatsPurely order (f.mapOperands g) source target := by
  obtain ⟨key, repeated, pure⟩ := repeated
  exact ⟨key.map g, repeated.mapOperands g, pure⟩

theorem Func.pureKey?_eq_some {f : Func} {index : Nat} {key : ExpressionKey} :
    f.pureKey? index = some key ↔ f.key? index = some key ∧ key.opcode.isLoad = false := by
  rw [pureKey?, key?]
  cases f.instruction? index with
  | none => simp
  | some x =>
    simp only [Option.bind_some]
    constructor
    · intro keyed
      split at keyed
      · cases keyed
      · next pure =>
        rw [Instruction.mayRead_of_key? keyed] at pure
        exact ⟨keyed, by simpa using pure⟩
    · rintro ⟨keyed, pure⟩
      rw [Instruction.mayRead_of_key? keyed, pure]
      simpa using keyed

/-! ## Keying one user again -/

/-- What keying a user again can do to a table and to the redirections that wait. -/
inductive Rekeyed (f : Func) (scanned : List Nat) (table : ExpressionTable)
    (pending : List (Redirection scanned)) (user : Nat) :
    ExpressionTable × List (Redirection scanned) → Prop
  | unseen : user ∉ scanned → Rekeyed f scanned table pending user (table, pending)
  | dropped : user ∈ scanned → f.pureKey? user = none →
    Rekeyed f scanned table pending user (table.eraseRepresentative user, pending)
  | fresh {key : ExpressionKey} : user ∈ scanned → f.pureKey? user = some key →
    (table.eraseRepresentative user).find? key = none →
    Rekeyed f scanned table pending user
      ((table.eraseRepresentative user).insert key user, pending)
  | first {key : ExpressionKey} {other : Nat} : user ∈ scanned → f.pureKey? user = some key →
    (table.eraseRepresentative user).find? key = some other →
    (earlier : scanned.idxOf user < scanned.idxOf other) →
    Rekeyed f scanned table pending user
      ((table.eraseRepresentative user).insert key user, ⟨other, user, earlier⟩ :: pending)
  | later {key : ExpressionKey} {other : Nat} : user ∈ scanned → f.pureKey? user = some key →
    (table.eraseRepresentative user).find? key = some other →
    (earlier : scanned.idxOf other < scanned.idxOf user) →
    Rekeyed f scanned table pending user
      (table.eraseRepresentative user, ⟨user, other, earlier⟩ :: pending)
  | level {key : ExpressionKey} {other : Nat} : user ∈ scanned → f.pureKey? user = some key →
    (table.eraseRepresentative user).find? key = some other →
    scanned.idxOf other = scanned.idxOf user →
    Rekeyed f scanned table pending user (table.eraseRepresentative user, pending)

theorem rekeyed_rekey (f : Func) (scanned : List Nat) (table : ExpressionTable)
    (pending : List (Redirection scanned)) (user : Nat) :
    Rekeyed f scanned table pending user (rekey f scanned (table, pending) user) := by
  by_cases seen : user ∈ scanned
  · simp only [rekey, if_pos seen]
    split
    · next unkeyed => exact .dropped seen unkeyed
    · next key keyed =>
      split
      · next missing => exact .fresh seen keyed missing
      · next other found =>
        split
        · next earlier => exact .first seen keyed found earlier
        · split
          · next earlier => exact .later seen keyed found earlier
          · next notEarlier notLater => exact .level seen keyed found (by omega)
  · simp only [rekey, if_neg seen]
    exact .unseen seen

/-! ## Keying all users again -/

/-- A table while users are keyed again, with those in `remaining` still to come: the substitution
`g` that was made turns each key into the current one, and only the keys of the users to come
differ from it. -/
structure Stale (f : Func) (g : Value → Value) (scanned remaining : List Nat)
    (table : ExpressionTable) : Prop where
  scanned : ∀ e ∈ table.entries, e.representative ∈ scanned
  keyed : ∀ e ∈ table.entries, f.key? e.representative = some (e.key.map g)
  settled : ∀ e ∈ table.entries, e.representative ∈ remaining ∨ e.key.map g = e.key

namespace Stale

variable {f : Func} {g : Value → Value} {scanned remaining : List Nat} {table : ExpressionTable}
  {user : Nat} {key : ExpressionKey}

/-- A user that represents nothing need not be keyed again. -/
theorem skip (stale : Stale f g scanned (user :: remaining) table)
    (absent : ∀ e ∈ table.entries, e.representative ≠ user) :
    Stale f g scanned remaining table where
  scanned := stale.scanned
  keyed := stale.keyed
  settled := by
    intro e mem
    rcases stale.settled e mem with waiting | settled
    · rcases List.mem_cons.mp waiting with same | waiting
      · exact absurd same (absent e mem)
      · exact .inl waiting
    · exact .inr settled

theorem eraseRepresentative (stale : Stale f g scanned (user :: remaining) table) :
    Stale f g scanned remaining (table.eraseRepresentative user) := by
  have kept : ∀ e ∈ (table.eraseRepresentative user).entries,
      e ∈ table.entries ∧ e.representative ≠ user :=
    fun e mem => ExpressionTable.mem_eraseRepresentative.mp mem
  have fewer : Stale f g scanned (user :: remaining) (table.eraseRepresentative user) :=
    ⟨fun e mem => stale.scanned e (kept e mem).1, fun e mem => stale.keyed e (kept e mem).1,
      fun e mem => stale.settled e (kept e mem).1⟩
  exact fewer.skip fun e mem => (kept e mem).2

theorem insert (stale : Stale f g scanned remaining table) (seen : user ∈ scanned)
    (keyed : f.key? user = some key) (fixed : key.map g = key) :
    Stale f g scanned remaining (table.insert key user) where
  scanned := by
    intro e mem
    rcases ExpressionTable.mem_insert.mp mem with rfl | ⟨mem, -⟩
    · exact seen
    · exact stale.scanned e mem
  keyed := by
    intro e mem
    rcases ExpressionTable.mem_insert.mp mem with rfl | ⟨mem, -⟩
    · rw [fixed]
      exact keyed
    · exact stale.keyed e mem
  settled := by
    intro e mem
    rcases ExpressionTable.mem_insert.mp mem with rfl | ⟨mem, -⟩
    · exact .inr fixed
    · exact stale.settled e mem

/-- An entry that is found under a current key has this key now, even if it is still to be keyed
again. -/
theorem key?_of_find? (stale : Stale f g scanned remaining table) (fixed : key.map g = key)
    {other : Nat} (found : table.find? key = some other) :
    other ∈ scanned ∧ f.key? other = some key := by
  have mem := ExpressionTable.find?_eq_some.mp found
  have keyed := stale.keyed _ mem
  rw [fixed] at keyed
  exact ⟨stale.scanned _ mem, keyed⟩

/-- Once no user is left the table is current. -/
theorem current (stale : Stale f g scanned [] table) : table.Current f scanned := by
  intro e mem
  refine ⟨stale.scanned e mem, ?_⟩
  rcases stale.settled e mem with waiting | settled
  · cases waiting
  · rw [stale.keyed e mem, settled]

end Stale

/-- What keying users again leaves: the table's state with those in `remaining` still to come,
memory reads only from before, and redirections that waited already or are between instructions
that read no memory. -/
structure RekeyedTo (f : Func) (g : Value → Value) (scanned remaining : List Nat)
    (before after : ExpressionTable × List (Redirection scanned)) : Prop where
  stale : Stale f g scanned remaining after.1
  reads : ∀ e ∈ after.1.entries, e.key.opcode.isLoad = true → e ∈ before.1.entries
  pending : ∀ r ∈ after.2, r ∈ before.2 ∨ RepeatsPurely scanned f r.source r.target

section Users

variable {f : Func} {g : Value → Value} {scanned remaining : List Nat}

/-- One user. Keys of the function as it is are fixed by the substitution that was made. -/
theorem rekey_rekeyedTo (fixed : ∀ index key, f.key? index = some key → key.map g = key)
    {table : ExpressionTable} (pending : List (Redirection scanned)) {user : Nat}
    (stale : Stale f g scanned (user :: remaining) table) :
    RekeyedTo f g scanned remaining (table, pending)
      (rekey f scanned (table, pending) user) := by
  have erased := stale.eraseRepresentative
  have kept : ∀ e ∈ (table.eraseRepresentative user).entries, e ∈ table.entries :=
    fun e mem => (ExpressionTable.mem_eraseRepresentative.mp mem).1
  -- an entry that keying the user again adds reads no memory
  have reads : ∀ key : ExpressionKey, key.opcode.isLoad = false →
      ∀ e ∈ ((table.eraseRepresentative user).insert key user).entries,
        e.key.opcode.isLoad = true → e ∈ table.entries := by
    intro key pure e mem reads
    rcases ExpressionTable.mem_insert.mp mem with rfl | ⟨mem, -⟩
    · rw [pure] at reads
      cases reads
    · exact kept e mem
  have rekeyed := rekeyed_rekey f scanned table pending user
  generalize rekey f scanned (table, pending) user = out at rekeyed ⊢
  cases rekeyed with
  | unseen unseen =>
    refine ⟨stale.skip ?_, fun e mem _ => mem, fun r mem => .inl mem⟩
    intro e mem same
    exact unseen (same ▸ stale.scanned e mem)
  | dropped seen unkeyed =>
    exact ⟨erased, fun e mem _ => kept e mem, fun r mem => .inl mem⟩
  | fresh seen keyed missing =>
    obtain ⟨keyed, pure⟩ := Func.pureKey?_eq_some.mp keyed
    exact ⟨erased.insert seen keyed (fixed _ _ keyed), reads _ pure, fun r mem => .inl mem⟩
  | first seen keyed found earlier =>
    obtain ⟨keyed, pure⟩ := Func.pureKey?_eq_some.mp keyed
    obtain ⟨otherSeen, otherKeyed⟩ := erased.key?_of_find? (fixed _ _ keyed) found
    refine ⟨erased.insert seen keyed (fixed _ _ keyed), reads _ pure, fun r mem => ?_⟩
    rcases List.mem_cons.mp mem with rfl | mem
    · exact .inr ⟨_, ⟨otherSeen, earlier, otherKeyed, keyed⟩, pure⟩
    · exact .inl mem
  | later seen keyed found earlier =>
    obtain ⟨keyed, pure⟩ := Func.pureKey?_eq_some.mp keyed
    obtain ⟨-, otherKeyed⟩ := erased.key?_of_find? (fixed _ _ keyed) found
    refine ⟨erased, fun e mem _ => kept e mem, fun r mem => ?_⟩
    rcases List.mem_cons.mp mem with rfl | mem
    · exact .inr ⟨_, ⟨seen, earlier, keyed, otherKeyed⟩, pure⟩
    · exact .inl mem
  | level seen keyed found same =>
    exact ⟨erased, fun e mem _ => kept e mem, fun r mem => .inl mem⟩

/-- All users, in order. -/
theorem foldl_rekey_rekeyedTo (fixed : ∀ index key, f.key? index = some key → key.map g = key)
    (users : List Nat) {state : ExpressionTable × List (Redirection scanned)}
    (stale : Stale f g scanned users state.1) :
    RekeyedTo f g scanned [] state (users.foldl (rekey f scanned) state) := by
  induction users generalizing state with
  | nil => exact ⟨stale, fun e mem _ => mem, fun r mem => .inl mem⟩
  | cons user users ih =>
    have one := rekey_rekeyedTo fixed state.2 stale
    have rest := ih one.stale
    refine ⟨rest.stale, fun e mem reads => one.reads e (rest.reads e mem reads) reads, ?_⟩
    intro r mem
    rcases rest.pending r mem with waited | pure
    · exact one.pending r waited
    · exact .inr pure

end Users

/-! ## Working off redirections -/

/-- After a move the entries of its users are stale, and no others. -/
theorem ExpressionTable.Current.stale {table : ExpressionTable} {f : Func} {scanned : List Nat}
    (current : table.Current f scanned) (source target : Nat) :
    Stale (f.redirectUses source (.inst target)) (moveUses source (.inst target)) scanned
      (f.usersOf source) table where
  scanned e mem := (current e mem).1
  keyed e mem := by
    rw [Func.redirectUses, Func.key?_mapOperands, (current e mem).2]
    rfl
  settled e mem := by
    by_cases user : e.representative ∈ f.usersOf source
    · exact .inl user
    · have unchanged := Func.key?_redirectUses_of_not_mem target user
      rw [Func.redirectUses, Func.key?_mapOperands, (current e mem).2] at unchanged
      exact .inr (Option.some.inj unchanged)

/-- After a move no key mentions its source. -/
theorem key_map_moveUses {f : Func} {source target index : Nat} {key : ExpressionKey}
    (distinct : target ≠ source)
    (keyed : (f.redirectUses source (.inst target)).key? index = some key) :
    key.map (moveUses source (.inst target)) = key := by
  rw [Func.redirectUses, Func.key?_mapOperands] at keyed
  obtain ⟨old, -, rfl⟩ := Option.map_eq_some_iff.mp keyed
  simp only [ExpressionKey.map_map, moveUses_moveUses distinct]

/-- A move and the rekeying behind it keep the table current. -/
theorem Redirection.rekeyed {scanned : List Nat} (r : Redirection scanned) {f : Func}
    {table : ExpressionTable} (current : table.Current f scanned)
    (pending : List (Redirection scanned)) :
    RekeyedTo (f.redirectUses r.source (.inst r.target)) (moveUses r.source (.inst r.target))
      scanned [] (table, pending)
      ((f.usersOf r.source).foldl (rekey (f.redirectUses r.source (.inst r.target)) scanned)
        (table, pending)) := by
  have distinct : r.target ≠ r.source := fun same => r.target_ne_source (congrArg Value.inst same)
  exact foldl_rekey_rekeyedTo (fun _ _ keyed => key_map_moveUses distinct keyed) _
    (current.stale r.source r.target)

/-- What working off redirections between instructions that read no memory leaves. -/
structure SettledFrom (f : Func) (table : ExpressionTable) (scanned : List Nat) (out : Settled) :
    Prop where
  func : out.func = f.after out.events
  current : out.table.Current out.func scanned
  reads : ∀ e ∈ out.table.entries, e.key.opcode.isLoad = true → e ∈ table.entries
  moves : EachMove (RepeatsPurely scanned) f out.events

/-- Redirections between instructions that read no memory ask for none between others. -/
theorem settle_settledFrom {f : Func} {table : ExpressionTable} {scanned : List Nat}
    {pending : List (Redirection scanned)} (current : table.Current f scanned)
    (pure : ∀ r ∈ pending, RepeatsPurely scanned f r.source r.target) :
    SettledFrom f table scanned (settle f table scanned pending) := by
  fun_induction settle f table scanned pending with
  | case1 f table => exact ⟨rfl, current, fun e mem _ => mem, trivial⟩
  | case2 f table r pending users moved rekeyed rest ih =>
    have step := r.rekeyed current pending
    have settled := ih step.stale.current fun p mem => by
      rcases step.pending p mem with waited | asked
      · exact (pure p (List.mem_cons_of_mem _ waited)).mapOperands _
      · exact asked
    exact ⟨settled.func, settled.current,
      fun e mem reads => step.reads e (settled.reads e mem reads) reads,
      pure r List.mem_cons_self, settled.moves⟩

/-- Working off one redirection, whatever it is between: the move itself, and then only moves
between instructions that read no memory. -/
theorem settle_singleton {f : Func} {table : ExpressionTable} {scanned : List Nat}
    (r : Redirection scanned) (current : table.Current f scanned) :
    ∃ rest : Settled,
      settle f table scanned [r] =
        { rest with
          events := .redirected r.source r.target (f.usersOf r.source) :: rest.events } ∧
      SettledFrom (f.redirectUses r.source (.inst r.target)) table scanned rest := by
  have step := r.rekeyed current []
  have settled := settle_settledFrom step.stale.current fun p mem => by
    rcases step.pending p mem with waited | asked
    · cases waited
    · exact asked
  refine ⟨_, by rw [settle], settled.func, settled.current, ?_, settled.moves⟩
  exact fun e mem reads => step.reads e (settled.reads e mem reads) reads

end BlockReuse
