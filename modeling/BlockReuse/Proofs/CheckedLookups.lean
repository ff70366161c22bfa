import BlockReuse.Ir.Text
import BlockReuse.Proofs.Scanning

/-!
# Checked look-ups — passes and texts ask only for what a function has

An index that names no instruction is passed over by a scan and left out of a text. Here each
look-up fails instead: `reuse?` and `Func.text?` do what `reuse` and `Func.text` do, and there is no
answer as soon as a block or an instruction is missing. They always answer, and answer the same
(`reuse?_eq`, `Func.text?_eq`). The members of a block are instructions of the function, and
whatever else a scan asks about is a member it has passed: a representative of the table, or a user
that is keyed again.
-/

set_option autoImplicit false

namespace BlockReuse

/-- The function has the instructions with the given indices. -/
def Func.HasAll (f : Func) (indices : List Nat) : Prop :=
  ∀ index ∈ indices, (f.instruction? index).isSome = true

theorem Func.HasAll.mapOperands {f : Func} {indices : List Nat} (has : f.HasAll indices)
    (g : Value → Value) : (f.mapOperands g).HasAll indices := by
  intro index mem
  rw [instruction?_mapOperands, Option.isSome_map]
  exact has index mem

/-! ## Working off redirections -/

section Settle

variable {f : Func} {scanned : List Nat}

/-- Keys a user again, if the function has it. -/
def rekey? (f : Func) (scanned : List Nat)
    (state : ExpressionTable × List (Redirection scanned)) (user : Nat) :
    Option (ExpressionTable × List (Redirection scanned)) :=
  if user ∈ scanned then (f.instruction? user).map fun _ => rekey f scanned state user
  else some state

theorem rekey?_eq (has : f.HasAll scanned) (state : ExpressionTable × List (Redirection scanned))
    (user : Nat) : rekey? f scanned state user = some (rekey f scanned state user) := by
  by_cases seen : user ∈ scanned
  · obtain ⟨x, found⟩ := Option.isSome_iff_exists.mp (has user seen)
    rw [rekey?, if_pos seen, found, Option.map_some]
  · rw [rekey?, if_neg seen, rekey, if_neg seen]

/-- Where checked rekeying answers, it answers as rekeying does. -/
theorem foldlM_rekey?_eq_some {users : List Nat}
    {state out : ExpressionTable × List (Redirection scanned)}
    (rekeyed : users.foldlM (rekey? f scanned) state = some out) :
    users.foldl (rekey f scanned) state = out := by
  induction users generalizing state with
  | nil => exact Option.some.inj rekeyed
  | cons user users ih =>
    rw [List.foldlM_cons] at rekeyed
    obtain ⟨next, one, rest⟩ := Option.bind_eq_some_iff.mp rekeyed
    have same : rekey f scanned state user = next := by
      unfold rekey? at one
      split at one
      · obtain ⟨x, -, same⟩ := Option.map_eq_some_iff.mp one
        exact same
      · next unseen =>
        rw [rekey, if_neg unseen]
        exact Option.some.inj one
    rw [List.foldl_cons, same]
    exact ih rest

theorem foldlM_rekey?_eq (has : f.HasAll scanned) (users : List Nat)
    (state : ExpressionTable × List (Redirection scanned)) :
    users.foldlM (rekey? f scanned) state = some (users.foldl (rekey f scanned) state) := by
  induction users generalizing state with
  | nil => rfl
  | cons user users ih =>
    rw [List.foldlM_cons, rekey?_eq has, List.foldl_cons]
    exact ih _

/-- Works off redirections, as long as every user that is keyed again is there. -/
def settle? (f : Func) (table : ExpressionTable) (scanned : List Nat)
    (pending : List (Redirection scanned)) : Option Settled :=
  match pending with
  | [] => some ⟨f, table, []⟩
  | r :: pending =>
    let users := f.usersOf r.source
    let moved := f.redirectUses r.source (.inst r.target)
    match _found : users.foldlM (rekey? moved scanned) (table, pending) with
    | none => none
    | some rekeyed =>
      (settle? moved rekeyed.1 scanned rekeyed.2).map fun rest =>
        { rest with events := .redirected r.source r.target users :: rest.events }
termination_by redirectionBound f scanned pending.length
decreasing_by
  rw [← foldlM_rekey?_eq_some _found]
  exact redirectionBound_lt r pending f table

theorem settle?_eq (has : f.HasAll scanned) (table : ExpressionTable)
    (pending : List (Redirection scanned)) :
    settle? f table scanned pending = some (settle f table scanned pending) := by
  fun_induction settle f table scanned pending with
  | case1 f table => rw [settle?]
  | case2 f table r pending users moved rekeyed rest ih =>
    have next : moved.HasAll scanned := has.mapOperands _
    have found := foldlM_rekey?_eq next users (table, pending)
    rw [settle?]
    split
    · next missing =>
      rw [found] at missing
      cases missing
    · next out answered =>
      obtain rfl : rekeyed = out := Option.some.inj (found.symm.trans answered)
      rw [ih next, Option.map_some]

end Settle

/-! ## Scans -/

namespace Scan

/-- Ends the entries that a write may change, if every representative is there and so is the block
that is scanned. -/
def passWrite? (s : Scan) (oracle : Oracle) (block index : Nat) (x : Instruction Value) :
    Option Scan :=
  if x.mayWrite then do
    let after ← invalidate? s.table s.func oracle x
    let _ ← s.func.blocks[block]?
    some { s with
      table := after.table
      events :=
        s.events ++ [.memoryWritten index block (s.table.size - after.table.size) after.queries] }
  else some s

/-- Looks up an instruction that was just visited, with checked redirections. -/
def lookUp? (s : Scan) (index : Nat) (key : ExpressionKey) : Option Scan :=
  match s.table.find? key with
  | none =>
    some { s with
      table := s.table.insert key index
      events := s.events ++ [.newExpression index] }
  | some representative =>
    if h : s.scanned.idxOf representative < s.scanned.idxOf index then
      (settle? s.func s.table s.scanned [⟨index, representative, h⟩]).map fun settled =>
        { s with
          func := settled.func
          table := settled.table
          events := s.events ++ settled.events }
    else some s

/-- One step, if the function has the member and whatever the step asks about. -/
def step? (oracle : Oracle) (block : Nat) (s : Scan) (index : Nat) : Option Scan := do
  let x ← s.func.instruction? index
  let passed ← s.passWrite? oracle block index x
  match x.key? with
  | none => some (passed.visit index)
  | some key => (passed.visit index).lookUp? index key

/-- The scan of a list of members, step by checked step. -/
def run? (oracle : Oracle) (block : Nat) (f : Func) (members : List Nat) : Option Scan :=
  members.foldlM (step? oracle block) (start f)

section Step

variable {s : Scan} {block index : Nat}

theorem passWrite?_eq (known : ∀ e ∈ s.table.entries, e.representative ∈ s.scanned)
    (has : s.func.HasAll s.scanned) (inside : block < s.func.blocks.length) (oracle : Oracle)
    (index : Nat) (x : Instruction Value) :
    s.passWrite? oracle block index x = some (s.passWrite oracle block index x) := by
  by_cases writes : x.mayWrite = true
  · have all :
        (s.table.entries.all fun e => (s.func.instruction? e.representative).isSome) = true :=
      List.all_eq_true.mpr fun e mem => has _ (known e mem)
    rw [passWrite?, if_pos writes, invalidate?, if_pos all, passWrite, if_pos writes,
      List.getElem?_eq_getElem inside]
    rfl
  · rw [passWrite?, if_neg writes, passWrite, if_neg writes]

theorem lookUp?_eq (has : s.func.HasAll s.scanned) (index : Nat) (key : ExpressionKey) :
    s.lookUp? index key = some (s.lookUp index key) := by
  cases hit : s.table.find? key with
  | none => simp only [lookUp?, lookUp, hit]
  | some representative =>
    simp only [lookUp?, lookUp, hit]
    split
    · rw [settle?_eq has, Option.map_some]
    · rfl

/-- A step answers where the table holds what was scanned, and all of that is there. -/
theorem step?_eq (known : ∀ e ∈ s.table.entries, e.representative ∈ s.scanned)
    (has : s.func.HasAll (s.scanned ++ [index])) (inside : block < s.func.blocks.length)
    (oracle : Oracle) : step? oracle block s index = some (step oracle block s index) := by
  have seen : s.func.HasAll s.scanned := fun i mem => has i (List.mem_append_left _ mem)
  obtain ⟨x, found⟩ := Option.isSome_iff_exists.mp (has index (by simp))
  have passed := passWrite?_eq known seen inside oracle index x
  simp only [step?, step, found, Option.bind_eq_bind, Option.bind_some, passed]
  cases keyed : x.key? with
  | none => rfl
  | some key =>
    -- what is reused writes nothing, so the state is that before the step
    rw [passWrite_of_key? keyed]
    exact lookUp?_eq (s := s.visit index) has index key

end Step

/-- The scan of a block, or of a first part of it, always answers. -/
theorem run?_eq {f : Func} {b : Block} {block : Nat} (found : f.blocks[block]? = some b)
    (oracle : Oracle) {done : List Nat} (inBlock : done <+: b.members) :
    run? oracle block f done = some (run oracle block f done) := by
  have mem : b ∈ f.blocks := List.mem_of_getElem? found
  induction done using List.reverseRecOn with
  | nil => rfl
  | append_singleton done index ih =>
    have before := (List.prefix_append done [index]).trans inBlock
    have consistent := consistent_run mem oracle block before
    have stepped : step? oracle block (run oracle block f done) index =
        some (step oracle block (run oracle block f done) index) := by
      refine step?_eq (fun e isEntry => (consistent.current e isEntry).1) ?_ ?_ oracle
      · intro i isMember
        rw [scanned_run] at isMember
        exact Option.isSome_iff_exists.mpr
          (consistent.exists_instruction? mem (inBlock.subset isMember))
      · rw [consistent.func, Func.blocks_after]
        exact (List.getElem?_eq_some_iff.mp found).1
    have first := ih before
    rw [run?] at first
    rw [run?, List.foldlM_append, first, run_append_singleton, ← stepped]
    simp

end Scan

/-! ## Passes -/

/-- Reuses results within each block, if the function has the blocks it is said to have and every
look-up succeeds. -/
def reuse? (oracle : Oracle) (f : Func) : Option Outcome :=
  (List.range f.blocks.length).foldlM
    (fun o block => do
      let b ← o.func.blocks[block]?
      let scan ← Scan.run? oracle block o.func b.members
      some ⟨scan.func, o.events ++ scan.events⟩)
    ⟨f, []⟩

/-- A pass always answers. -/
theorem reuse?_eq (oracle : Oracle) (f : Func) : reuse? oracle f = some (reuse oracle f) := by
  -- the blocks that are still to come stand behind those that were scanned
  have pass (front back : List Block) (o : Outcome) (blocks : o.func.blocks = front ++ back) :
      (List.range' front.length back.length).foldlM
        (fun o block => do
          let b ← o.func.blocks[block]?
          let scan ← Scan.run? oracle block o.func b.members
          some (Outcome.mk scan.func (o.events ++ scan.events))) o =
        some (reuseBlocks oracle o (back.zipIdx front.length)) := by
    induction back generalizing front o with
    | nil => rfl
    | cons b back ih =>
      have found : o.func.blocks[front.length]? = some b := by rw [blocks]; simp
      have scanned := Scan.run?_eq found oracle (List.prefix_refl b.members)
      have kept := (Scan.consistent_run (List.mem_of_getElem? found) oracle front.length
        (List.prefix_refl b.members)).func
      have rest := ih (front ++ [b])
        ⟨(Scan.run oracle front.length o.func b.members).func,
          o.events ++ (Scan.run oracle front.length o.func b.members).events⟩
        (by rw [kept, Func.blocks_after, blocks]; simp)
      rw [List.length_append, List.length_singleton] at rest
      rw [List.length_cons, List.range'_succ, List.foldlM_cons, found]
      simp only [Option.bind_eq_bind, Option.bind_some, scanned]
      exact rest
  rw [reuse?, List.range_eq_range']
  exact pass [] f.blocks ⟨f, []⟩ rfl

/-! ## Texts -/

namespace Func

/-- The lines of one block, if the function has its members. -/
def blockLines? (f : Func) (b : Block) : Option (List String) := do
  let lines ← b.members.mapM fun index => (f.instruction? index).map (f.definitionLine index)
  some ((b.label ++ ":") :: lines)

/-- The text of a function, if it has the members of its blocks. -/
def text? (f : Func) : Option String := do
  let blocks ← f.blocks.mapM f.blockLines?
  some (String.join ((f.headLine :: blocks.flatten ++ ["\x7d"]).map (· ++ "\n")))

/-- Where every look-up succeeds, nothing is left out. -/
theorem mapM_eq_some_filterMap {α β : Type} {g : α → Option β} {items : List α}
    (all : ∀ a ∈ items, (g a).isSome = true) : items.mapM g = some (items.filterMap g) := by
  induction items with
  | nil => rfl
  | cons a items ih =>
    obtain ⟨first, more⟩ := List.forall_mem_cons.mp all
    obtain ⟨b, found⟩ := Option.isSome_iff_exists.mp first
    rw [List.mapM_cons, found, ih more, List.filterMap_cons, found]
    rfl

theorem blockLines?_eq {f : Func} {b : Block} (mem : b ∈ f.blocks) :
    f.blockLines? b = some (f.blockLines b) := by
  have all : ∀ index ∈ b.members,
      ((f.instruction? index).map (f.definitionLine index)).isSome = true := by
    intro index member
    obtain ⟨x, found⟩ := exists_instruction?_of_mem mem member
    rw [found]
    rfl
  rw [blockLines?, mapM_eq_some_filterMap all]
  rfl

/-- Every function has a text that leaves none of its instructions out. -/
theorem text?_eq (f : Func) : f.text? = some f.text := by
  have lines : f.blocks.mapM f.blockLines? = some (f.blocks.map f.blockLines) := by
    rw [mapM_eq_some_filterMap fun b mem => by rw [blockLines?_eq mem]; rfl,
      List.filterMap_congr fun b mem => blockLines?_eq mem]
    exact congrArg some (congrFun (List.filterMap_eq_map (f := f.blockLines)) f.blocks)
  rw [text?, lines, text, Func.lines, List.flatMap_def]
  rfl

end Func

end BlockReuse
