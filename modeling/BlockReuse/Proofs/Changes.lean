import BlockReuse.Proofs.Termination

/-!
# Changes — what a scan or a pass says about having changed a function is exact

A scan says that it changed something as soon as one of its redirections found a user. An operand
may be moved many times after that, so it has to be excluded that later moves undo earlier ones.
They cannot: every move goes to an earlier place. With places counted along the block, or through
the whole function for a pass, the first use that is moved makes the function lighter and no later
move makes it heavier again, while instructions that are the same weigh the same
(`modified_iff_of_moves`).

In the other direction, redirections without users leave the function as it is.

The flag is read off the events. Carried through the loops instead, which raise it whenever a
redirection finds a user, it comes out the same (`flag_reuse_eq`).
-/

set_option autoImplicit false

namespace BlockReuse

/-! ## The flag -/

/-- Whether an event is a move of at least one use. -/
def Event.movesUses : Event → Bool
  | redirected _ _ users => !users.isEmpty
  | memoryWritten _ _ _ _ => false
  | newExpression _ => false

theorem Outcome.modified_eq_any (o : Outcome) : o.modified = o.events.any Event.movesUses := by
  refine congrArg o.events.any (funext fun event => ?_)
  cases event <;> rfl

/-- The flag behind a loop that works off redirections, when it was `modified` in front of it: each
round raises it that finds a user. -/
def settleFlag (f : Func) (table : ExpressionTable) (scanned : List Nat)
    (pending : List (Redirection scanned)) (modified : Bool) : Bool :=
  match pending with
  | [] => modified
  | r :: pending =>
    let users := f.usersOf r.source
    let moved := f.redirectUses r.source (.inst r.target)
    let rekeyed := users.foldl (rekey moved scanned) (table, pending)
    settleFlag moved rekeyed.1 scanned rekeyed.2 (modified || !users.isEmpty)
termination_by redirectionBound f scanned pending.length
decreasing_by exact redirectionBound_lt r pending f table

theorem settleFlag_eq (f : Func) (table : ExpressionTable) (scanned : List Nat)
    (pending : List (Redirection scanned)) (modified : Bool) :
    settleFlag f table scanned pending modified =
      (modified || (settle f table scanned pending).events.any Event.movesUses) := by
  fun_induction settleFlag f table scanned pending modified with
  | case1 => simp [settle]
  | case2 f table modified r pending users moved rekeyed ih =>
    rw [ih, settle]
    simp [Event.movesUses, Bool.or_assoc, users, moved, rekeyed]

/-- A step of a scan with the flag that the scan carries. -/
def Scan.flaggedStep (oracle : Oracle) (block : Nat) : Scan × Bool → Nat → Scan × Bool
  | (s, modified), index =>
    (s.step oracle block index,
      match s.func.instruction? index with
      | none => modified
      | some x =>
        let s := (s.passWrite oracle block index x).visit index
        match x.key?.bind s.table.find? with
        | none => modified
        | some representative =>
          if h : s.scanned.idxOf representative < s.scanned.idxOf index then
            modified || settleFlag s.func s.table s.scanned [⟨index, representative, h⟩] false
          else modified)

theorem Scan.flaggedStep_eq (oracle : Oracle) (block : Nat) (s : Scan) (index : Nat) :
    flaggedStep oracle block (s, s.events.any Event.movesUses) index =
      (s.step oracle block index,
        (s.step oracle block index).events.any Event.movesUses) := by
  refine Prod.ext rfl ?_
  simp only [flaggedStep, step]
  cases found : s.func.instruction? index with
  | none => rfl
  | some x =>
    -- what is reported of a write moves no use
    have quiet : ((s.passWrite oracle block index x).visit index).events.any Event.movesUses =
        s.events.any Event.movesUses := by
      unfold passWrite visit
      split <;> simp [Event.movesUses]
    simp only [← quiet]
    generalize (s.passWrite oracle block index x).visit index = t
    cases keyed : x.key? with
    | none => rfl
    | some key =>
      simp only [Option.bind_some, lookUp]
      cases t.table.find? key with
      | none => simp [Event.movesUses]
      | some representative =>
        by_cases earlier : t.scanned.idxOf representative < t.scanned.idxOf index
        · simp [earlier, settleFlag_eq]
        · simp [earlier]

/-- The flag behind the scan of a list of members. -/
def Scan.flag (oracle : Oracle) (f : Func) (block : Nat) (members : List Nat) : Bool :=
  (members.foldl (flaggedStep oracle block) (start f, false)).2

theorem Scan.flag_eq (oracle : Oracle) (f : Func) (block : Nat) (members : List Nat) :
    flag oracle f block members = (reuseMembers oracle f block members).modified := by
  have carried : members.foldl (flaggedStep oracle block) (start f, false) =
      (run oracle block f members, (run oracle block f members).events.any Event.movesUses) :=
    List.foldl_hom (fun s : Scan => (s, s.events.any Event.movesUses))
      fun s index => flaggedStep_eq oracle block s index
  rw [Outcome.modified_eq_any]
  exact congrArg Prod.snd carried

/-- The scan of a block with the flag that the pass carries. The block is scanned whatever the flag
says. -/
def flaggedBlock (oracle : Oracle) : Outcome × Bool → Block × Nat → Outcome × Bool
  | (o, modified), (b, block) =>
    let next := reuseMembers oracle o.func block b.members
    (⟨next.func, o.events ++ next.events⟩, Scan.flag oracle o.func block b.members || modified)

/-- The flag that a pass carries through its loops is what its events say. -/
theorem flag_reuse_eq (oracle : Oracle) (f : Func) :
    f.blocks.zipIdx.foldl (flaggedBlock oracle) (⟨f, []⟩, false) =
      (reuse oracle f, (reuse oracle f).modified) := by
  refine List.foldl_hom (fun o : Outcome => (o, o.modified)) fun o p => Prod.ext rfl ?_
  simp [flaggedBlock, Scan.flag_eq, Outcome.modified_eq_any, Bool.or_comm]

/-! ## What the flag says -/

/-- Redirections that found no user changed nothing. -/
theorem Func.after_eq_self_of_quiet {f : Func} {events : List Event}
    (truthful : Truthful f events) (quiet : Quiet events) : f.after events = f := by
  induction events with
  | nil => rfl
  | cons event events ih =>
    have quietRest : Quiet events :=
      fun source target users mem => quiet source target users (List.mem_cons_of_mem _ mem)
    cases event with
    | memoryWritten writer block removed queries => exact ih truthful quietRest
    | newExpression index => exact ih truthful quietRest
    | redirected source target users =>
      obtain ⟨told, truthful⟩ := truthful
      have unused : f.usersOf source = [] :=
        told.symm.trans (quiet source target users List.mem_cons_self)
      have unmoved : f.redirectUses source (.inst target) = f := redirectUses_eq_self unused
      rw [unmoved] at truthful
      show (f.redirectUses source (.inst target)).after events = f
      rw [unmoved]
      exact ih truthful quietRest

/-- The weight of a function is that of its instructions. -/
theorem Func.weight_eq_of_instructions_eq {f g : Func} (same : f.instructions = g.instructions)
    (order : List Nat) : f.weight order = g.weight order := by
  rw [weight, weight, operands, operands, same]

/-- An outcome whose moves go to earlier places says that something changed exactly if the
instructions differ. -/
theorem modified_iff_of_moves {f : Func} {o : Outcome} (order : List Nat)
    (func : o.func = f.after o.events) (truthful : Truthful f o.events)
    (moves : EachMove (fun _ source target => order.idxOf target < order.idxOf source) f o.events) :
    o.modified = true ↔ o.func.instructions ≠ f.instructions := by
  constructor
  · intro changed same
    have loud : ¬ Quiet o.events := by
      rw [← Outcome.modified_eq_false_iff, changed]
      decide
    have lighter := weight_after_lt moves truthful loud
    rw [← func, Func.weight_eq_of_instructions_eq same] at lighter
    exact Nat.lt_irrefl _ lighter
  · intro differ
    by_contra silent
    have quiet := Outcome.modified_eq_false_iff.mp (eq_false_of_ne_true silent)
    rw [func, Func.after_eq_self_of_quiet truthful quiet] at differ
    exact differ rfl

/-- The moves of a scan of a block go to earlier members. -/
theorem modified_reuseMembers_iff {f : Func} {b : Block} (mem : b ∈ f.blocks) (oracle : Oracle)
    (block : Nat) :
    (reuseMembers oracle f block b.members).modified = true ↔
      (reuseMembers oracle f block b.members).func.instructions ≠ f.instructions := by
  have consistent := Scan.consistent_run mem oracle block (List.prefix_refl b.members)
  have truthful := truthful_run mem oracle block (List.prefix_refl b.members)
  refine modified_iff_of_moves b.members consistent.func truthful ?_
  refine consistent.moves.mono fun g source target ⟨key, repeated⟩ => ?_
  rw [Scan.scanned_run] at repeated
  exact repeated.earlier

/-- The scan of any block of a function, and the pass over all of them, say that something changed
exactly if the instructions of the function are others than before. -/
theorem modified_iff_instructions_ne (oracle : Oracle) (f : Func) :
    (∀ block < f.blocks.length, ∃ o, reuseBlock? oracle f block = some o ∧
      (o.modified = true ↔ o.func.instructions ≠ f.instructions)) ∧
    ((reuse oracle f).modified = true ↔ (reuse oracle f).func.instructions ≠ f.instructions) := by
  constructor
  · intro block inside
    refine ⟨reuseMembers oracle f block f.blocks[block].members, ?_, ?_⟩
    · rw [reuseBlock?, List.getElem?_eq_getElem inside, Option.map_some]
    · exact modified_reuseMembers_iff (List.getElem_mem inside) oracle block
  · obtain ⟨func, moves⟩ := reuse_replaces oracle f
    refine modified_iff_of_moves f.order func (truthful_reuse oracle f) ?_
    exact moves.mono fun g source target replaces => replaces.1.idxOf_lt

end BlockReuse
