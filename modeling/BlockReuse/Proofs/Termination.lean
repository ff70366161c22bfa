import Mathlib.Logic.Function.Iterate
import Mathlib.Logic.Relation
import BlockReuse.Proofs.Duplicates
import BlockReuse.Proofs.Justification

/-!
# Termination — redirections come to an end, and so do passes

A redirection of `settle` carries the proof that it points backwards, and keying a user again
compares two places before it asks for one. The loop itself makes one comparison, and its pairs are
bare: `Worklist` is that loop, turn by turn. It never needs the second comparison, because every
representative was scanned and the user has just been taken from the table, so the two differ and
one of them stands first (`requeue_eq_rekey`). Hence the bare loop does what `settle` does, in every
state it reaches its pairs point backwards, and it ends where `settle` does.

A pass that reports a change has moved an operand to an earlier place, and none to a later one. With
places counted through the whole function its weight is then smaller, so passes cannot go on
reporting changes.
-/

set_option autoImplicit false

namespace BlockReuse

/-! ## The bare loop -/

/-- The state of the loop between two turns: the function, the live expressions, and the pairs of
instructions that wait, the newest first. -/
structure Worklist where
  func : Func
  table : ExpressionTable
  pending : List (Nat × Nat)
  deriving DecidableEq, Repr

/-- Keys a user again. If its key has a representative, then the user takes its place when it is
known to stand before it, and is redirected to it in any other case. -/
def requeue (f : Func) (scanned : List Nat) (state : ExpressionTable × List (Nat × Nat))
    (user : Nat) : ExpressionTable × List (Nat × Nat) :=
  let (table, pending) := state
  if user ∈ scanned then
    let table := table.eraseRepresentative user
    match f.pureKey? user with
    | none => (table, pending)
    | some key =>
      match table.find? key with
      | none => (table.insert key user, pending)
      | some other =>
        if other ∈ scanned ∧ scanned.idxOf user < scanned.idxOf other then
          (table.insert key user, (other, user) :: pending)
        else (table, (user, other) :: pending)
  else (table, pending)

/-- One turn: the newest pair is taken off and its uses are moved, whatever its ends are. There is
none when no pair waits. -/
def Worklist.turn? (scanned : List Nat) (w : Worklist) : Option Worklist :=
  match w.pending with
  | [] => none
  | (source, target) :: rest =>
    let moved := w.func.replaceUses source (.inst target)
    let next := moved.2.foldl (requeue moved.1 scanned) (w.table, rest)
    some ⟨moved.1, next.1, next.2⟩

/-- What some number of turns leads to. -/
def Worklist.Reaches (scanned : List Nat) : Worklist → Worklist → Prop :=
  Relation.ReflTransGen fun w next => w.turn? scanned = some next

/-- Some operand of `f` that names `source` names `target` in `g`. -/
def MovesOperand (f g : Func) (source target : Nat) : Prop :=
  ∃ (user : Nat) (x y : Instruction Value) (slot : Nat),
    f.instruction? user = some x ∧ g.instruction? user = some y ∧
      x.operands[slot]? = some (.inst source) ∧ y.operands[slot]? = some (.inst target)

/-! ## The bare loop and `settle` -/

section Loop

variable {f : Func} {g : Value → Value} {scanned : List Nat} {table : ExpressionTable}

/-- The two instructions a redirection is between. -/
def Redirection.ends (r : Redirection scanned) : Nat × Nat := (r.source, r.target)

/-- The state of the bare loop that has the given redirections to do. -/
def Worklist.ofRedirections (f : Func) (table : ExpressionTable)
    (pending : List (Redirection scanned)) : Worklist :=
  ⟨f, table, pending.map Redirection.ends⟩

/-- When every representative was scanned, one comparison decides as two do. -/
theorem requeue_eq_rekey (seen : ∀ e ∈ table.entries, e.representative ∈ scanned)
    (pending : List (Redirection scanned)) (user : Nat) :
    requeue f scanned (table, pending.map Redirection.ends) user =
      ((rekey f scanned (table, pending) user).1,
        (rekey f scanned (table, pending) user).2.map Redirection.ends) := by
  have other_seen : ∀ {key : ExpressionKey} {other : Nat},
      (table.eraseRepresentative user).find? key = some other → other ∈ scanned ∧ other ≠ user := by
    intro key other found
    have mem := ExpressionTable.find?_eq_some.mp found
    obtain ⟨mem, different⟩ := ExpressionTable.mem_eraseRepresentative.mp mem
    exact ⟨seen _ mem, different⟩
  have rekeyed := rekeyed_rekey f scanned table pending user
  generalize rekey f scanned (table, pending) user = out at rekeyed ⊢
  cases rekeyed with
  | unseen unseen => simp only [requeue, if_neg unseen]
  | dropped userSeen unkeyed => simp only [requeue, if_pos userSeen, unkeyed]
  | fresh userSeen keyed missing => simp only [requeue, if_pos userSeen, keyed, missing]
  | first userSeen keyed found earlier =>
    simp only [requeue, if_pos userSeen, keyed, found]
    rw [if_pos ⟨(other_seen found).1, earlier⟩]
    rfl
  | later userSeen keyed found earlier =>
    simp only [requeue, if_pos userSeen, keyed, found]
    rw [if_neg (by omega)]
    rfl
  | level userSeen keyed found same =>
    obtain ⟨otherSeen, different⟩ := other_seen found
    exact absurd ((List.idxOf_inj otherSeen).mp same) different

/-- The same for users keyed again one after the other. -/
theorem foldl_requeue_eq (fixed : ∀ index key, f.key? index = some key → key.map g = key)
    (users : List Nat) (pending : List (Redirection scanned))
    (stale : Stale f g scanned users table) :
    users.foldl (requeue f scanned) (table, pending.map Redirection.ends) =
      ((users.foldl (rekey f scanned) (table, pending)).1,
        (users.foldl (rekey f scanned) (table, pending)).2.map Redirection.ends) := by
  induction users generalizing table pending with
  | nil => rfl
  | cons user users ih =>
    rw [List.foldl_cons, List.foldl_cons, requeue_eq_rekey stale.scanned]
    exact ih _ (rekey_rekeyedTo fixed pending stale).stale

/-- A turn of the bare loop is a round of `settle`. -/
theorem turn?_ofRedirections (r : Redirection scanned) (pending : List (Redirection scanned))
    (current : table.Current f scanned) :
    (Worklist.ofRedirections f table (r :: pending)).turn? scanned =
      some (.ofRedirections (f.redirectUses r.source (.inst r.target))
        ((f.usersOf r.source).foldl (rekey (f.redirectUses r.source (.inst r.target)) scanned)
          (table, pending)).1
        ((f.usersOf r.source).foldl (rekey (f.redirectUses r.source (.inst r.target)) scanned)
          (table, pending)).2) := by
  have distinct : r.target ≠ r.source := fun same => r.target_ne_source (congrArg Value.inst same)
  have requeued := foldl_requeue_eq (fun _ _ keyed => key_map_moveUses distinct keyed)
    (f.usersOf r.source) pending (current.stale r.source r.target)
  simp only [Worklist.ofRedirections, Worklist.turn?, List.map_cons, Redirection.ends,
    r.replaceUses_eq]
  exact congrArg some (congrArg (fun p => Worklist.mk _ p.1 p.2) requeued)

/-- The bare loop comes to where `settle` comes, and then no pair waits. -/
theorem reaches_settle (pending : List (Redirection scanned)) (current : table.Current f scanned) :
    (Worklist.ofRedirections f table pending).Reaches scanned
      ⟨(settle f table scanned pending).func, (settle f table scanned pending).table, []⟩ := by
  fun_induction settle f table scanned pending with
  | case1 f table => exact .refl
  | case2 f table r pending users moved rekeyed rest ih =>
    have next := (r.rekeyed current pending).stale.current
    exact .head (turn?_ofRedirections r pending current) (ih next)

/-! ## Every state the loop reaches -/

/-- What holds between two turns: the table is current, and the pairs that wait are redirections of
scanned instructions. -/
structure Worklist.Ordered (scanned : List Nat) (w : Worklist) : Prop where
  current : w.table.Current w.func scanned
  pending : ∃ rs : List (Redirection scanned),
    w.pending = rs.map Redirection.ends ∧ ∀ r ∈ rs, r.source ∈ scanned

/-- Keying users again keeps the redirections that wait, behind those it asks for. -/
theorem suffix_foldl_rekey (f : Func) (scanned users : List Nat)
    (state : ExpressionTable × List (Redirection scanned)) :
    state.2 <:+ (users.foldl (rekey f scanned) state).2 := by
  induction users generalizing state with
  | nil => exact List.suffix_refl _
  | cons user users ih =>
    have one : state.2 <:+ (rekey f scanned state user).2 := by
      have rekeyed := rekeyed_rekey f scanned state.1 state.2 user
      generalize rekey f scanned (state.1, state.2) user = out at rekeyed ⊢
      cases rekeyed with
      | first => exact List.suffix_cons _ _
      | later => exact List.suffix_cons _ _
      | _ => exact List.suffix_refl _
    exact one.trans (ih _)

/-- A move that has a user moves an operand. -/
theorem movesOperand_redirectUses {source : Nat} (target : Nat) (used : f.usersOf source ≠ []) :
    MovesOperand f (f.redirectUses source (.inst target)) source target := by
  obtain ⟨user, mem⟩ := List.exists_mem_of_ne_nil _ used
  obtain ⟨x, found, mentioned⟩ := Func.mem_usersOf.mp mem
  obtain ⟨slot, at_slot⟩ := List.mem_iff_getElem?.mp mentioned
  rw [← Func.instruction?_eq_getElem?] at found
  refine ⟨user, x, x.map (moveUses source (.inst target)), slot, found, ?_, at_slot, ?_⟩
  · rw [Func.redirectUses, Func.instruction?_mapOperands, found, Option.map_some]
  · rw [Instruction.operands_map, List.getElem?_map, at_slot, Option.map_some, moveUses_source]

/-- A turn keeps the order, and asks for new redirections only if it moved an operand. -/
theorem Worklist.Ordered.turn {w next : Worklist} (ordered : w.Ordered scanned)
    (turned : w.turn? scanned = some next) :
    next.Ordered scanned ∧ ∃ source target rest new,
      w.pending = (source, target) :: rest ∧ next.pending = new ++ rest ∧
        (new ≠ [] → MovesOperand w.func next.func source target) := by
  obtain ⟨current, rs, waiting, seen⟩ := ordered
  obtain ⟨func, table, pending⟩ := w
  obtain rfl : pending = rs.map Redirection.ends := waiting
  cases rs with
  | nil => cases turned
  | cons r rs =>
    have done := turn?_ofRedirections r rs current
    rw [Worklist.ofRedirections, turned] at done
    obtain rfl := Option.some.inj done
    have rekeyed := r.rekeyed current rs
    obtain ⟨new, added⟩ := suffix_foldl_rekey (func.redirectUses r.source (.inst r.target)) scanned
      (func.usersOf r.source) (table, rs)
    refine ⟨⟨rekeyed.stale.current, _, rfl, ?_⟩, r.source, r.target, rs.map Redirection.ends,
      new.map Redirection.ends, rfl, ?_, ?_⟩
    · intro p mem
      rcases rekeyed.pending p mem with waited | ⟨key, repeated, -⟩
      · exact seen p (List.mem_cons_of_mem _ waited)
      · exact repeated.mem
    · rw [Worklist.ofRedirections, ← added, List.map_append]
    · intro asked
      apply movesOperand_redirectUses
      intro unused
      apply asked
      -- without users nothing is keyed again
      rw [unused, List.foldl_nil] at added
      rw [List.append_left_eq_self.mp added, List.map_nil]

/-- The order holds in every state that turns lead to. -/
theorem Worklist.Ordered.reaches {w last : Worklist} (ordered : w.Ordered scanned)
    (reached : w.Reaches scanned last) : last.Ordered scanned := by
  induction reached with
  | refl => exact ordered
  | tail _ turned ih => exact (ih.turn turned).1

/-- The pairs that wait point backwards. -/
theorem Worklist.Ordered.earlier {w : Worklist} (ordered : w.Ordered scanned) {p : Nat × Nat}
    (waiting : p ∈ w.pending) :
    p.1 ∈ scanned ∧ scanned.idxOf p.2 < scanned.idxOf p.1 := by
  obtain ⟨-, rs, pending, seen⟩ := ordered
  rw [pending] at waiting
  obtain ⟨r, mem, rfl⟩ := List.mem_map.mp waiting
  exact ⟨seen r mem, r.earlier⟩

end Loop

/-! ## What is reported about users is true -/

/-- Every redirection among the events names the users its source has when it is made. -/
def Truthful (f : Func) : List Event → Prop
  | [] => True
  | .redirected source target users :: rest =>
    users = f.usersOf source ∧ Truthful (f.redirectUses source (.inst target)) rest
  | .memoryWritten _ _ _ _ :: rest => Truthful f rest
  | .newExpression _ :: rest => Truthful f rest

theorem truthful_append {f : Func} {first second : List Event} :
    Truthful f (first ++ second) ↔ Truthful f first ∧ Truthful (f.after first) second := by
  induction first generalizing f with
  | nil => simp [Truthful]
  | cons event first ih =>
    cases event with
    | redirected source target users => simp only [List.cons_append, Truthful, ih, and_assoc]; rfl
    | memoryWritten writer block removed queries => exact ih
    | newExpression index => exact ih

theorem truthful_settle (f : Func) (table : ExpressionTable) (scanned : List Nat)
    (pending : List (Redirection scanned)) :
    Truthful f (settle f table scanned pending).events := by
  fun_induction settle f table scanned pending with
  | case1 => trivial
  | case2 f table r pending users moved rekeyed rest ih => exact ⟨rfl, ih⟩

theorem truthful_run {f : Func} {b : Block} (mem : b ∈ f.blocks) (oracle : Oracle) (block : Nat)
    {done : List Nat} (inBlock : done <+: b.members) :
    Truthful f (Scan.run oracle block f done).events := by
  induction done using List.reverseRecOn with
  | nil => trivial
  | append_singleton done index ih =>
    have before := (List.prefix_append done [index]).trans inBlock
    have func := (Scan.consistent_run mem oracle block before).func
    obtain ⟨x, found, stepped⟩ := Scan.stepped_run mem oracle block inBlock
    generalize Scan.run oracle block f (done ++ [index]) = next at stepped ⊢
    cases stepped with
    | passed unkeyed =>
      unfold Scan.passWrite Scan.visit
      split
      · exact truthful_append.mpr ⟨ih before, trivial⟩
      · exact ih before
    | fresh keyed missing => exact truthful_append.mpr ⟨ih before, trivial⟩
    | repeated keyed hit earlier =>
      refine truthful_append.mpr ⟨ih before, ?_⟩
      rw [← func]
      exact truthful_settle _ _ _ _

theorem truthful_reuseBlocks {oracle : Oracle} {f : Func} {blocks : List (Block × Nat)}
    (inside : ∀ p ∈ blocks, p.1 ∈ f.blocks) {o : Outcome} (func : o.func = f.after o.events)
    (truthful : Truthful f o.events) :
    Truthful f (reuseBlocks oracle o blocks).events := by
  induction blocks generalizing o with
  | nil => exact truthful
  | cons first blocks ih =>
    obtain ⟨b, block⟩ := first
    have mem : b ∈ o.func.blocks := by
      rw [func, Func.blocks_after]
      exact inside _ List.mem_cons_self
    have scanned := Scan.consistent_run mem oracle block (List.prefix_refl b.members)
    refine ih (fun p mem => inside p (List.mem_cons_of_mem _ mem)) ?_ ?_
    · rw [Func.after_append, ← func]
      exact scanned.func
    · refine truthful_append.mpr ⟨truthful, ?_⟩
      rw [← func]
      exact truthful_run mem oracle block (List.prefix_refl b.members)

theorem truthful_reuse (oracle : Oracle) (f : Func) : Truthful f (reuse oracle f).events :=
  truthful_reuseBlocks (fun _ => List.fst_mem_of_mem_zipIdx) rfl trivial

/-! ## The weight of a function -/

/-- The instructions of all blocks, in order. -/
def Func.order (f : Func) : List Nat := f.blocks.flatMap Block.members

/-- What stands earlier in a block stands earlier in the function. -/
theorem Func.Precedes.idxOf_lt {f : Func} {earlier later : Nat}
    (precedes : f.Precedes earlier later) : f.order.idxOf earlier < f.order.idxOf later := by
  obtain ⟨b, mem, laterMem, lt⟩ := precedes
  have earlierMem := mem_of_idxOf_lt laterMem lt
  obtain ⟨front, back, blocks⟩ := List.append_of_mem mem
  have distinct := f.nodup_members_blocks
  rw [blocks, List.flatMap_append, List.flatMap_cons] at distinct
  have apart := List.disjoint_of_nodup_append distinct
  have place : ∀ index ∈ b.members, f.order.idxOf index =
      b.members.idxOf index + (front.flatMap Block.members).length := by
    intro index member
    have outside : index ∉ front.flatMap Block.members :=
      fun inFront => apart inFront (List.mem_append_left _ member)
    rw [Func.order, blocks, List.flatMap_append, List.flatMap_cons, List.idxOf_append,
      if_neg outside, List.idxOf_append, if_pos member]
  rw [place earlier earlierMem, place later laterMem]
  omega

section Weight

variable {order : List Nat}

/-- Moves to earlier instructions make a function no heavier. -/
theorem weight_after_le {f : Func} {events : List Event}
    (moves : EachMove (fun _ source target => order.idxOf target < order.idxOf source) f events) :
    (f.after events).weight order ≤ f.weight order := by
  induction events generalizing f with
  | nil => exact Nat.le_refl _
  | cons event events ih =>
    cases event with
    | redirected source target users =>
      exact Nat.le_trans (ih moves.2)
        (Redirection.weight_redirectUses_le ⟨source, target, moves.1⟩ f)
    | memoryWritten writer block removed queries => exact ih moves
    | newExpression index => exact ih moves

/-- They make it lighter if one of them had a user. -/
theorem weight_after_lt {f : Func} {events : List Event}
    (moves : EachMove (fun _ source target => order.idxOf target < order.idxOf source) f events)
    (truthful : Truthful f events) (loud : ¬ Quiet events) :
    (f.after events).weight order < f.weight order := by
  induction events generalizing f with
  | nil => exact absurd quiet_nil loud
  | cons event events ih =>
    have quiet_cons : Quiet [event] → ¬ Quiet events := fun first rest =>
      loud (quiet_append.mpr ⟨first, rest⟩)
    cases event with
    | redirected source target users =>
      obtain ⟨earlier, moves⟩ := moves
      obtain ⟨rfl, truthful⟩ := truthful
      by_cases unused : f.usersOf source = []
      · have quiet : Quiet [.redirected source target (f.usersOf source)] := by
          intro s t u mem
          rw [List.mem_singleton, Event.redirected.injEq] at mem
          exact mem.2.2.trans unused
        have lighter := ih moves truthful (quiet_cons quiet)
        exact Nat.lt_of_lt_of_le lighter
          (Redirection.weight_redirectUses_le ⟨source, target, earlier⟩ f)
      · have rest := weight_after_le (f := f.redirectUses source (.inst target)) moves
        exact Nat.lt_of_le_of_lt rest
          (Redirection.weight_redirectUses_lt ⟨source, target, earlier⟩ unused)
    | memoryWritten writer block removed queries =>
      exact ih moves truthful (quiet_cons fun _ _ _ mem => by simp at mem)
    | newExpression index =>
      exact ih moves truthful (quiet_cons fun _ _ _ mem => by simp at mem)

end Weight

/-- A pass that reports a change makes the function lighter. -/
theorem weight_reuse_lt {oracle : Oracle} {f : Func} (changed : (reuse oracle f).modified ≠ false) :
    (reuse oracle f).func.weight f.order < f.weight f.order := by
  obtain ⟨func, moves⟩ := reuse_replaces oracle f
  rw [func]
  apply weight_after_lt _ (truthful_reuse oracle f)
  · intro quiet
    exact changed (Outcome.modified_eq_false_iff.mpr quiet)
  · exact moves.mono fun g source target replaces => replaces.1.idxOf_lt

theorem order_reuse (oracle : Oracle) (f : Func) : (reuse oracle f).func.order = f.order := by
  rw [Func.order, (reuse_replaces oracle f).1, Func.blocks_after, Func.order]

/-- Passes one after the other come to one that reports no change. -/
theorem exists_iterate_unmodified (oracle : Oracle) (f : Func) :
    ∃ n, (reuse oracle ((fun g => (reuse oracle g).func)^[n] f)).modified = false := by
  induction weight : f.weight f.order using Nat.strongRecOn generalizing f with
  | ind w ih =>
    by_cases unchanged : (reuse oracle f).modified = false
    · exact ⟨0, unchanged⟩
    · have lighter := weight_reuse_lt unchanged
      rw [weight] at lighter
      obtain ⟨n, settled⟩ := ih _ lighter (reuse oracle f).func (by rw [order_reuse])
      exact ⟨n + 1, settled⟩

/-! ## Both come to an end -/

/-- Places in a first part of a list are places in the list. -/
theorem idxOf_lt_of_prefix {scanned members : List Nat} {earlier later : Nat}
    (inside : scanned <+: members) (seen : later ∈ scanned)
    (lt : scanned.idxOf earlier < scanned.idxOf later) :
    members.idxOf earlier < members.idxOf later := by
  obtain ⟨rest, rfl⟩ := inside
  rw [List.idxOf_append, if_pos (mem_of_idxOf_lt seen lt), List.idxOf_append, if_pos seen]
  exact lt

/-- Where a scan finds a duplicate it goes on from what working off its redirection leaves. -/
theorem Scan.settle_run {oracle : Oracle} {f : Func} {b : Block} {block : Nat}
    {done : List Nat} {index representative : Nat} {key : ExpressionKey} (mem : b ∈ f.blocks)
    (inBlock : done ++ [index] <+: b.members)
    (keyed : (run oracle block f done).func.key? index = some key)
    (hit : (run oracle block f done).table.find? key = some representative) :
    ∃ earlier : (done ++ [index]).idxOf representative < (done ++ [index]).idxOf index,
      (run oracle block f (done ++ [index])).func =
        (settle (run oracle block f done).func (run oracle block f done).table (done ++ [index])
          [⟨index, representative, earlier⟩]).func ∧
      (run oracle block f (done ++ [index])).table =
        (settle (run oracle block f done).func (run oracle block f done).table (done ++ [index])
          [⟨index, representative, earlier⟩]).table := by
  obtain ⟨x, found, stepped⟩ := stepped_run mem oracle block inBlock
  obtain ⟨y, same, yKeyed⟩ := Func.key?_eq_some.mp keyed
  obtain rfl := Option.some.inj (found.symm.trans same)
  have scanned := scanned_run oracle block f done
  generalize run oracle block f (done ++ [index]) = next at stepped ⊢
  generalize run oracle block f done = s at scanned hit stepped ⊢
  subst scanned
  cases stepped with
  | passed unkeyed =>
    rw [unkeyed] at yKeyed
    cases yKeyed
  | fresh freshKey missing =>
    obtain rfl := Option.some.inj (yKeyed.symm.trans freshKey)
    rw [missing] at hit
    cases hit
  | repeated repeatedKey found earlier =>
    obtain rfl := Option.some.inj (yKeyed.symm.trans repeatedKey)
    obtain rfl := Option.some.inj (hit.symm.trans found)
    exact ⟨earlier, rfl, rfl⟩

/-- Wherever the scan of a block finds a duplicate, the loop that works off its redirection comes
to a state where no pair waits, and the scan goes on from there; in every state on the way the pairs
point backwards in the block, and a turn asks for more only if it moved an operand to the earlier
instruction. And passes come to one that reports no change and makes none. -/
theorem redirections_and_passes_end (oracle : Oracle) (f : Func) :
    (∀ b ∈ f.blocks, ∀ (block : Nat) (done : List Nat) (index representative : Nat)
        (key : ExpressionKey), done ++ [index] <+: b.members →
      (Scan.run oracle block f done).func.key? index = some key →
      (Scan.run oracle block f done).table.find? key = some representative →
      let found : Worklist := ⟨(Scan.run oracle block f done).func,
        (Scan.run oracle block f done).table, [(index, representative)]⟩
      found.Reaches (done ++ [index]) ⟨(Scan.run oracle block f (done ++ [index])).func,
        (Scan.run oracle block f (done ++ [index])).table, []⟩ ∧
      ∀ w, found.Reaches (done ++ [index]) w →
        (∀ p ∈ w.pending,
          p.1 ∈ b.members ∧ b.members.idxOf p.2 < b.members.idxOf p.1) ∧
        ∀ next, w.turn? (done ++ [index]) = some next →
          ∃ source target rest new, w.pending = (source, target) :: rest ∧
            next.pending = new ++ rest ∧
            (new ≠ [] → MovesOperand w.func next.func source target)) ∧
    ∃ n, (reuse oracle ((fun g => (reuse oracle g).func)^[n] f)).modified = false ∧
      (reuse oracle ((fun g => (reuse oracle g).func)^[n] f)).func =
        (fun g => (reuse oracle g).func)^[n] f := by
  constructor
  · intro b mem block done index representative key inBlock keyed hit found
    have before := (List.prefix_append done [index]).trans inBlock
    have current := Scan.current_append (Scan.consistent_run mem oracle block before).current index
    rw [Scan.scanned_run] at current
    obtain ⟨earlier, func, table⟩ := Scan.settle_run mem inBlock keyed hit
    have ordered : found.Ordered (done ++ [index]) := by
      refine ⟨current, [⟨index, representative, earlier⟩], rfl, ?_⟩
      intro r only
      rw [List.mem_singleton.mp only]
      exact List.mem_append_right _ (List.mem_singleton_self _)
    rw [func, table]
    refine ⟨reaches_settle [⟨index, representative, earlier⟩] current, ?_⟩
    intro w reached
    have orderedThere := ordered.reaches reached
    constructor
    · intro p waiting
      obtain ⟨seen, earlier⟩ := orderedThere.earlier waiting
      exact ⟨inBlock.subset seen, idxOf_lt_of_prefix inBlock seen earlier⟩
    · intro next turned
      exact (orderedThere.turn turned).2
  · obtain ⟨n, settled⟩ := exists_iterate_unmodified oracle f
    exact ⟨n, settled, func_reuse_of_modified_eq_false settled⟩

/-- A block that jumps to itself. Its two phis take what is computed further down, twice alike. -/
def latePhis : Func where
  name := "f"
  arguments := ["x"]
  globals := []
  definitions :=
    [⟨.phi [(0, .inst 2)], some "p"⟩, ⟨.phi [(0, .inst 3)], some "q"⟩,
      ⟨.binary .add (.argument 0) (.const 1), some "m"⟩,
      ⟨.binary .add (.argument 0) (.const 1), some "n"⟩,
      ⟨.binary .add (.inst 0) (.inst 1), some "s"⟩, ⟨.branch 0, none⟩]
  blocks := [⟨"a", [0, 1, 2, 3, 4, 5]⟩]
  placed := by decide

/-- The redirection of the second sum makes the phis equal and so asks for another one; that one
asks for none, and a second pass finds nothing to do. -/
theorem redirections_and_passes_end_latePhis :
    ∃ found next : Worklist, found.pending = [(3, 2)] ∧ found.turn? [0, 1, 2, 3] = some next ∧
      next.pending = [(1, 0)] ∧ MovesOperand found.func next.func 3 2 ∧
      (∃ last, found.Reaches [0, 1, 2, 3] last ∧ last.pending = []) ∧
      ∃ n, (reuse .conservative
        ((fun g => (reuse .conservative g).func)^[n] latePhis)).modified = false := by
  obtain ⟨loops, n, unmodified, -⟩ := redirections_and_passes_end .conservative latePhis
  obtain ⟨last, inOrder⟩ := loops _ List.mem_cons_self 0 [0, 1, 2] 3 2
    ⟨.binary .add, #v[some (.argument 0), some (.const 1), none, none, none]⟩
    (by decide) (by decide +kernel) (by decide +kernel)
  let found : Worklist := ⟨(Scan.run .conservative 0 latePhis [0, 1, 2]).func,
    (Scan.run .conservative 0 latePhis [0, 1, 2]).table, [(3, 2)]⟩
  have first : (found.turn? [0, 1, 2, 3]).map Worklist.pending = some [(1, 0)] := by decide +kernel
  obtain ⟨next, turned, asked⟩ := Option.map_eq_some_iff.mp first
  obtain ⟨source, target, rest, new, waiting, added, moved⟩ := (inOrder found .refl).2 next turned
  cases waiting
  refine ⟨found, next, rfl, turned, asked, moved fun nothing => ?_, ⟨_, last, rfl⟩, n, unmodified⟩
  rw [asked, nothing] at added
  cases added

end BlockReuse
