import BlockReuse.Ir.Uses
import BlockReuse.Reuse.Table

/-!
# Redirections — pointing the uses of a duplicate at the instruction it repeats

A redirection moves the uses of one scanned instruction to an earlier one. Moving uses changes the
operands of their users, and a user that was scanned already may now be a duplicate of another
scanned instruction, as phis over a back edge are. So each user is keyed again under its new
operands: it represents its new key if no other instruction does, and otherwise the later of the
two is redirected to the earlier. `settle` works off these redirections, the newest first.

It ends because every redirection points uses at an earlier instruction. Weigh an operand by the
place of the instruction it names in the scanned prefix: a redirection that has users makes the sum
of the weights smaller (`weight_redirectUses_lt`), and one without users asks for no further ones.
-/

set_option autoImplicit false

namespace BlockReuse

/-- A pending move of the uses of `source` to `target`, which stands earlier in the scanned
prefix of the block. -/
structure Redirection (scanned : List Nat) where
  source : Nat
  target : Nat
  earlier : scanned.idxOf target < scanned.idxOf source

/-- What a scan reports, in order. -/
inductive Event where
  /-- An instruction that may write memory was passed: how many entries it ended, and the
  questions that were asked. -/
  | memoryWritten (writer block removed : Nat) (queries : List (Location × Location))
  /-- An instruction became the representative of its key. -/
  | newExpression (index : Nat)
  /-- The uses of an instruction were moved, in the given users. -/
  | redirected (source target : Nat) (users : List Nat)
  deriving DecidableEq, Repr

/-- The key of an instruction that reads no memory. -/
def Func.pureKey? (f : Func) (index : Nat) : Option ExpressionKey :=
  (f.instruction? index).bind fun x => if x.mayRead then none else x.key?

/-- Keys a user of a moved result again. A load is dropped from the table and not keyed again: the
writes since it was scanned are not known any more. -/
def rekey (f : Func) (scanned : List Nat)
    (state : ExpressionTable × List (Redirection scanned)) (user : Nat) :
    ExpressionTable × List (Redirection scanned) :=
  let (table, pending) := state
  if user ∈ scanned then
    let table := table.eraseRepresentative user
    match f.pureKey? user with
    | none => (table, pending)
    | some key =>
      match table.find? key with
      | none => (table.insert key user, pending)
      | some other =>
        if h : scanned.idxOf user < scanned.idxOf other then
          (table.insert key user, ⟨other, user, h⟩ :: pending)
        else if h : scanned.idxOf other < scanned.idxOf user then
          (table, ⟨user, other, h⟩ :: pending)
        else (table, pending)
  else (table, pending)

/-! ## The measure -/

/-- The weight of an operand: the place of the instruction it names. -/
def operandWeight (scanned : List Nat) : Value → Nat
  | .inst index => scanned.idxOf index
  | _ => 0

/-- The sum of the weights of operands. -/
def totalWeight (scanned : List Nat) : List Value → Nat
  | [] => 0
  | v :: rest => operandWeight scanned v + totalWeight scanned rest

/-- The sum of the weights of all operands of a function. -/
def Func.weight (f : Func) (scanned : List Nat) : Nat := totalWeight scanned f.operands

theorem totalWeight_map_le {scanned : List Nat} {g : Value → Value}
    (le : ∀ v, operandWeight scanned (g v) ≤ operandWeight scanned v) (operands : List Value) :
    totalWeight scanned (operands.map g) ≤ totalWeight scanned operands := by
  induction operands with
  | nil => exact Nat.le_refl _
  | cons v rest ih => exact Nat.add_le_add (le v) ih

theorem totalWeight_map_lt {scanned : List Nat} {g : Value → Value}
    (le : ∀ v, operandWeight scanned (g v) ≤ operandWeight scanned v) {operands : List Value}
    {u : Value} (mem : u ∈ operands) (lt : operandWeight scanned (g u) < operandWeight scanned u) :
    totalWeight scanned (operands.map g) < totalWeight scanned operands := by
  induction operands with
  | nil => cases mem
  | cons v rest ih =>
    rcases List.mem_cons.mp mem with rfl | mem
    · exact Nat.add_lt_add_of_lt_of_le lt (totalWeight_map_le le rest)
    · exact Nat.add_lt_add_of_le_of_lt (le v) (ih mem)

namespace Redirection

variable {scanned : List Nat}

theorem target_ne_source (r : Redirection scanned) : Value.inst r.target ≠ .inst r.source := by
  intro h
  cases h' : r with
  | mk source target earlier =>
    subst h'
    cases h
    exact Nat.lt_irrefl _ earlier

/-- A redirection replaces all uses: its two ends differ. -/
theorem replaceUses_eq (r : Redirection scanned) (f : Func) :
    f.replaceUses r.source (.inst r.target) =
      (f.redirectUses r.source (.inst r.target), f.usersOf r.source) := by
  rw [Func.replaceUses, if_neg r.target_ne_source]

/-- Moving uses to an earlier instruction makes no operand heavier. -/
theorem operandWeight_le (r : Redirection scanned) (v : Value) :
    operandWeight scanned (moveUses r.source (.inst r.target) v) ≤ operandWeight scanned v := by
  by_cases use : v = .inst r.source
  · rw [use, moveUses_source]
    exact Nat.le_of_lt r.earlier
  · exact Nat.le_of_eq (by rw [moveUses_of_ne use])

theorem weight_redirectUses_le (r : Redirection scanned) (f : Func) :
    (f.redirectUses r.source (.inst r.target)).weight scanned ≤ f.weight scanned := by
  simp only [Func.weight, Func.redirectUses, Func.operands_mapOperands]
  exact totalWeight_map_le r.operandWeight_le _

/-- Moving a use to an earlier instruction makes the function lighter. -/
theorem weight_redirectUses_lt (r : Redirection scanned) {f : Func}
    (used : f.usersOf r.source ≠ []) :
    (f.redirectUses r.source (.inst r.target)).weight scanned < f.weight scanned := by
  obtain ⟨user, mem⟩ := List.exists_mem_of_ne_nil _ used
  simp only [Func.weight, Func.redirectUses, Func.operands_mapOperands]
  refine totalWeight_map_lt r.operandWeight_le (Func.inst_mem_operands_of_mem_usersOf mem) ?_
  simpa [operandWeight] using r.earlier

end Redirection

/-- Keying a user again asks for at most one redirection. -/
theorem length_rekey_le (f : Func) (scanned : List Nat)
    (state : ExpressionTable × List (Redirection scanned)) (user : Nat) :
    (rekey f scanned state user).2.length ≤ state.2.length + 1 := by
  obtain ⟨table, pending⟩ := state
  simp only [rekey]
  split
  · split
    · simp
    · split
      · simp
      · split
        · simp
        · split <;> simp
  · simp

theorem length_foldl_rekey_le (f : Func) (scanned : List Nat) (users : List Nat)
    (state : ExpressionTable × List (Redirection scanned)) :
    (users.foldl (rekey f scanned) state).2.length ≤ state.2.length + users.length := by
  induction users generalizing state with
  | nil => exact Nat.le_refl _
  | cons user users ih =>
    have := ih (rekey f scanned state user)
    have := length_rekey_le f scanned state user
    simp only [List.foldl_cons, List.length_cons]
    omega

/-- Bounds the redirections still to come: the weight, times one more than a redirection can ask
for, plus those that wait. -/
def redirectionBound (f : Func) (scanned : List Nat) (waiting : Nat) : Nat :=
  f.weight scanned * (f.instructions.length + 1) + waiting

theorem redirectionBound_lt {scanned : List Nat} (r : Redirection scanned)
    (pending : List (Redirection scanned)) (f : Func) (table : ExpressionTable) :
    redirectionBound (f.redirectUses r.source (.inst r.target)) scanned
        ((f.usersOf r.source).foldl (rekey (f.redirectUses r.source (.inst r.target)) scanned)
          (table, pending)).2.length <
      redirectionBound f scanned (pending.length + 1) := by
  have grown := length_foldl_rekey_le (f.redirectUses r.source (.inst r.target)) scanned
    (f.usersOf r.source) (table, pending)
  have few := f.length_usersOf_le r.source
  simp only [redirectionBound, Func.length_instructions_redirectUses]
  simp only at grown
  by_cases used : f.usersOf r.source = []
  · rw [used] at grown ⊢
    have := Nat.mul_le_mul_right (f.instructions.length + 1) (r.weight_redirectUses_le f)
    simp only [List.foldl_nil]
    omega
  · have lighter := Nat.mul_le_mul_right (f.instructions.length + 1)
      (Nat.succ_le_of_lt (r.weight_redirectUses_lt used))
    rw [Nat.succ_mul] at lighter
    omega

/-! ## Working off redirections -/

/-- A function and a table with no redirection left to do, and what was done. -/
structure Settled where
  func : Func
  table : ExpressionTable
  events : List Event

/-- Works off redirections, the newest first. -/
def settle (f : Func) (table : ExpressionTable) (scanned : List Nat)
    (pending : List (Redirection scanned)) : Settled :=
  match pending with
  | [] => ⟨f, table, []⟩
  | r :: pending =>
    let users := f.usersOf r.source
    let moved := f.redirectUses r.source (.inst r.target)
    let rekeyed := users.foldl (rekey moved scanned) (table, pending)
    let rest := settle moved rekeyed.1 scanned rekeyed.2
    { rest with events := .redirected r.source r.target users :: rest.events }
termination_by redirectionBound f scanned pending.length
decreasing_by exact redirectionBound_lt r pending f table

end BlockReuse
