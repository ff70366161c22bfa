import BlockReuse.Proofs.Moves
import BlockReuse.Proofs.Semantics

/-!
# Simulation — a move to a result that is already known changes no run

A move is anticipated when, whenever a run comes to the source, the target holds what the source is
about to compute. Then the two hold the same result from there to the end of the block, and so
whenever a block is entered: either both were set by the last run of their block or both are
undefined. A use of the source in another block, or in a phi, reads it on entry of a block; any
other use stands behind the source in its block. So each use reads the same value from the target.
-/

set_option autoImplicit false

namespace BlockReuse

variable {Val Mem World Byte : Type} {I : Interpretation Val Mem World Byte} {f : Func}

/-- Whenever a run comes to `source`, the earlier `target` holds what `source` computes. -/
def Anticipates (I : Interpretation Val Mem World Byte) (f : Func) (source target : Nat) : Prop :=
  ∃ block b before x, f.blocks[block]? = some b ∧ before ++ [source] <+: b.members ∧
    target ∈ before ∧ f.instruction? source = some x ∧ x.isReusable = true ∧
    ∀ memory world n, (I.run f memory world n).block = some block →
      (I.reach f (I.run f memory world n) before).results target =
        I.value (I.run f memory world n) (I.reach f (I.run f memory world n) before) x

/-! ## Operands that were moved -/

section Moved

variable {source target : Nat} {c : Config Val Mem World} {s : State Val Mem World}
  {x : Instruction Value}

theorem eval_moveUses {results : Nat → Val} (same : results source = results target) (v : Value) :
    I.eval results (moveUses source (.inst target) v) = I.eval results v := by
  by_cases moved : v = .inst source
  · rw [moved, moveUses_source]
    exact same.symm
  · rw [moveUses_of_ne moved]

@[simp]
theorem Instruction.isPhi_map {ν μ : Type} (g : ν → μ) (x : Instruction ν) :
    (x.map g).isPhi = x.isPhi := by
  cases x <;> rfl

/-- What an instruction computes, with operands that stand for the same on entry of the block, if it
is a phi, and for the same now, if it is none. -/
theorem value_map {g : Value → Value}
    (onEntry : ∀ v, I.eval c.state.results (g v) = I.eval c.state.results v)
    (now : x.isPhi = false → ∀ v ∈ x.operands, I.eval s.results (g v) = I.eval s.results v) :
    I.value c s (x.map g) = I.value c s x := by
  have operands : x.isPhi = false →
      (x.map g).operands.map (I.eval s.results) = x.operands.map (I.eval s.results) := by
    intro notPhi
    rw [Instruction.operands_map, List.map_map]
    exact List.map_congr_left (now notPhi)
  cases x with
  | phi incoming =>
    simp only [Instruction.map, Interpretation.value, List.map_map, Function.comp_def, onEntry]
  | load type pointer isVolatile =>
    simp only [Instruction.map, Interpretation.value, now rfl pointer List.mem_cons_self]
  | _ => exact congrArg (I.compute _) (operands rfl)

/-- The same for what a member does. -/
theorem perform_redirectUses {index : Nat} (found : f.instruction? index = some x)
    (onEntry : c.state.results source = c.state.results target)
    (now : x.isPhi = false → .inst source ∈ x.operands → s.results source = s.results target) :
    I.perform (f.redirectUses source (.inst target)) c s index = I.perform f c s index := by
  have moved : (f.redirectUses source (.inst target)).instruction? index =
      some (x.map (moveUses source (.inst target))) := by
    rw [Func.redirectUses, Func.instruction?_mapOperands, found, Option.map_some]
  have same : x.isPhi = false → ∀ v ∈ x.operands,
      I.eval s.results (moveUses source (.inst target) v) = I.eval s.results v := by
    intro notPhi v mem
    by_cases uses : v = .inst source
    · exact eval_moveUses (now notPhi (uses ▸ mem)) v
    · rw [moveUses_of_ne uses]
  cases reusable : x.isReusable with
  | true =>
    rw [Interpretation.perform_of_isReusable moved (by rw [Instruction.isReusable_map, reusable]),
      Interpretation.perform_of_isReusable found reusable, value_map (eval_moveUses onEntry) same]
  | false =>
    have notPhi : x.isPhi = false := by
      cases x with
      | phi incoming => cases reusable
      | _ => rfl
    have acted : (x.map (moveUses source (.inst target))).map (I.eval s.results) =
        x.map (I.eval s.results) := by
      rw [Instruction.map_map]
      exact Instruction.map_congr (same notPhi)
    rw [Interpretation.perform_of_not_isReusable moved
        (by rw [Instruction.isReusable_map, reusable]),
      Interpretation.perform_of_not_isReusable found reusable, acted]

end Moved

/-! ## One block -/

section Block

variable {source target : Nat} {c : Config Val Mem World} {b : Block}

/-- What a move needs of a block that is entered in `c`, where its two ends agree: the source is no
member and the target is none, or the target stands earlier and holds what the source is about to
compute. -/
structure Foresees (I : Interpretation Val Mem World Byte) (f : Func) (c : Config Val Mem World)
    (b : Block) (source target : Nat) : Prop where
  agree : c.state.results source = c.state.results target
  outside : source ∉ b.members → target ∉ b.members
  inside : ∀ before, before ++ [source] <+: b.members → target ∈ before ∧
    ∃ x, f.instruction? source = some x ∧ x.isReusable = true ∧
      (I.reach f c before).results target = I.value c (I.reach f c before) x

/-- When the source has been passed, so has the target. -/
theorem Foresees.target_mem (foresees : Foresees I f c b source target) {done : List Nat}
    (inBlock : done <+: b.members) (seen : source ∈ done) : target ∈ done := by
  obtain ⟨before, rest, rfl⟩ := List.append_of_mem seen
  have cut : before ++ [source] <+: before ++ source :: rest := ⟨rest, by simp⟩
  exact List.mem_append_left _ (foresees.inside before (cut.trans inBlock)).1

/-- Wherever a run stands in the block, the move has changed nothing, and the ends of the move agree
unless the source is still to come. -/
theorem reach_redirectUses (ordered : f.Ordered) (mem : b ∈ f.blocks)
    (foresees : Foresees I f c b source target) {done : List Nat} (inBlock : done <+: b.members) :
    I.reach (f.redirectUses source (.inst target)) c done = I.reach f c done ∧
      ((source ∈ b.members → source ∈ done) →
        (I.reach f c done).results source = (I.reach f c done).results target) := by
  induction done using List.reverseRecOn with
  | nil => exact ⟨rfl, fun _ => foresees.agree⟩
  | append_singleton done index ih =>
    have prior := (List.prefix_append done [index]).trans inBlock
    obtain ⟨same, agree⟩ := ih prior
    have member : index ∈ b.members := inBlock.subset (by simp)
    have new := Func.not_mem_of_prefix mem inBlock
    obtain ⟨x, found⟩ := Func.exists_instruction?_of_mem mem member
    rw [Interpretation.reach_append_singleton, Interpretation.reach_append_singleton, same]
    refine ⟨perform_redirectUses found foresees.agree ?_, fun passed => ?_⟩
    · intro notPhi uses
      refine agree fun sourceMem => (Func.idxOf_lt_iff_mem mem inBlock).mp ?_
      exact ordered b mem index member x found notPhi source sourceMem uses
    · by_cases here : source = index
      · subst here
        obtain ⟨targetSeen, x, found, reusable, holds⟩ := foresees.inside done inBlock
        have distinct : target ≠ source := fun same => new (same ▸ targetSeen)
        rw [Interpretation.results_perform_of_ne distinct, holds,
          Interpretation.perform_of_isReusable found reusable]
        exact Function.update_self ..
      · have before : source ∈ b.members → source ∈ done := fun sourceMem =>
          (List.mem_append.mp (passed sourceMem)).resolve_right fun last =>
            here (List.mem_singleton.mp last)
        have distinct : target ≠ index := by
          rintro rfl
          by_cases sourceMem : source ∈ b.members
          · exact new (foresees.target_mem prior (before sourceMem))
          · exact foresees.outside sourceMem member
        rw [Interpretation.results_perform_of_ne here,
          Interpretation.results_perform_of_ne distinct]
        exact agree before

end Block

/-! ## Whole runs -/

section Run

variable {source target : Nat}

/-- A block that a run enters with the ends of an anticipated move in agreement. -/
theorem Anticipates.foresees (anticipates : Anticipates I f source target) {memory : Mem}
    {world : World} {n block : Nat} {b : Block}
    (agree : (I.run f memory world n).state.results source =
      (I.run f memory world n).state.results target)
    (entered : (I.run f memory world n).block = some block) (found : f.blocks[block]? = some b) :
    Foresees I f (I.run f memory world n) b source target := by
  obtain ⟨home, c, before, x, homeFound, inHome, targetMem, sourceFound, reusable, holds⟩ :=
    anticipates
  have cMem : c ∈ f.blocks := List.mem_of_getElem? homeFound
  have sourceMem : source ∈ c.members := inHome.subset (by simp)
  have targetMem' : target ∈ c.members := inHome.subset (List.mem_append_left _ targetMem)
  refine ⟨agree, fun absent present => ?_, fun before' inBlock => ?_⟩
  · obtain rfl := Func.block_eq_of_mem homeFound found targetMem' present
    obtain rfl := Option.some.inj (homeFound.symm.trans found)
    exact absent sourceMem
  · have sourceHere : source ∈ b.members := inBlock.subset (by simp)
    obtain rfl := Func.block_eq_of_mem homeFound found sourceMem sourceHere
    obtain rfl := Option.some.inj (homeFound.symm.trans found)
    obtain rfl := Func.eq_of_prefixes cMem inHome inBlock
    exact ⟨targetMem, x, sourceFound, reusable, holds memory world n entered⟩

/-- An anticipated move changes no run. Whenever a block is entered its two ends agree, and up to
any member of the block the states are the same. -/
theorem run_redirectUses (ordered : f.Ordered) (anticipates : Anticipates I f source target)
    (memory : Mem) (world : World) (n : Nat) :
    I.run (f.redirectUses source (.inst target)) memory world n = I.run f memory world n ∧
      (I.run f memory world n).state.results source =
        (I.run f memory world n).state.results target := by
  induction n with
  | zero => exact ⟨rfl, rfl⟩
  | succ n ih =>
    obtain ⟨same, agree⟩ := ih
    rw [Interpretation.run, Interpretation.run, same]
    cases running : (I.run f memory world n).block.bind fun block => f.blocks[block]? with
    | none =>
      rw [I.step_of_none running, I.step_of_none (by rw [Func.blocks_redirectUses]; exact running)]
      exact ⟨rfl, agree⟩
    | some b =>
      obtain ⟨block, entered, found⟩ := Option.bind_eq_some_iff.mp running
      obtain ⟨reached, agree⟩ := reach_redirectUses ordered (List.mem_of_getElem? found)
        (anticipates.foresees agree entered found) (List.prefix_refl _)
      rw [I.step_of_some running, I.step_of_some (by rw [Func.blocks_redirectUses]; exact running),
        reached]
      exact ⟨rfl, agree fun sourceMem => sourceMem⟩

/-- Where two functions with the same blocks run alike: they enter the same blocks in the same
states, and are in the same state up to any member. -/
structure SameRuns (I : Interpretation Val Mem World Byte) (f g : Func) : Prop where
  run : ∀ memory world n, I.run g memory world n = I.run f memory world n
  reach : ∀ memory world n block b done, (I.run f memory world n).block = some block →
    f.blocks[block]? = some b → done <+: b.members →
    I.reach g (I.run f memory world n) done = I.reach f (I.run f memory world n) done

theorem SameRuns.trans {g h : Func} (first : SameRuns I f g) (blocks : g.blocks = f.blocks)
    (second : SameRuns I g h) : SameRuns I f h where
  run memory world n := (second.run memory world n).trans (first.run memory world n)
  reach memory world n block b done entered found inBlock := by
    rw [← first.reach memory world n block b done entered found inBlock]
    rw [← first.run memory world n] at entered ⊢
    exact second.reach memory world n block b done entered (blocks ▸ found) inBlock

theorem sameRuns_redirectUses (ordered : f.Ordered) (anticipates : Anticipates I f source target) :
    SameRuns I f (f.redirectUses source (.inst target)) where
  run memory world n := (run_redirectUses ordered anticipates memory world n).1
  reach memory world n block b done entered found inBlock := by
    have agree := (run_redirectUses ordered anticipates memory world n).2
    have foresees := anticipates.foresees agree entered found
    exact (reach_redirectUses ordered (List.mem_of_getElem? found) foresees inBlock).1

/-- A move to an earlier member keeps operands in order. -/
theorem ordered_redirectUses (ordered : f.Ordered) (anticipates : Anticipates I f source target) :
    (f.redirectUses source (.inst target)).Ordered := by
  obtain ⟨home, c, before, x, homeFound, inHome, targetMem, -⟩ := anticipates
  have cMem : c ∈ f.blocks := List.mem_of_getElem? homeFound
  intro b mem index member y found notPhi operand operandMem uses
  rw [Func.redirectUses, Func.instruction?_mapOperands] at found
  obtain ⟨z, unmoved, rfl⟩ := Option.map_eq_some_iff.mp found
  rw [Instruction.isPhi_map] at notPhi
  rw [Instruction.operands_map] at uses
  obtain ⟨v, vMem, moved⟩ := List.mem_map.mp uses
  by_cases source' : v = .inst source
  · -- the operand is the target, which stands before the source
    rw [source', moveUses_source] at moved
    have same : operand = target := (Value.inst.inj moved).symm
    subst same
    rw [source'] at vMem
    obtain ⟨place, bFound⟩ := List.mem_iff_getElem?.mp (show b ∈ f.blocks from mem)
    obtain rfl := Func.block_eq_of_mem homeFound bFound
      (inHome.subset (List.mem_append_left _ targetMem)) operandMem
    obtain rfl := Option.some.inj (homeFound.symm.trans bFound)
    have sourceMem : source ∈ c.members := inHome.subset (by simp)
    calc c.members.idxOf operand < c.members.idxOf source :=
        (Func.idxOf_lt_iff_mem cMem inHome).mpr targetMem
      _ < c.members.idxOf index :=
        ordered c cMem index member z unmoved notPhi source sourceMem vMem
  · rw [moveUses_of_ne source'] at moved
    exact ordered b mem index member z unmoved notPhi operand operandMem (moved ▸ vMem)

/-- A list of moves, each anticipated when it is made, changes no run. -/
theorem sameRuns_after (ordered : f.Ordered) {events : List Event}
    (moves : EachMove (Anticipates I) f events) :
    SameRuns I f (f.after events) ∧ (f.after events).Ordered := by
  induction events generalizing f with
  | nil => exact ⟨⟨fun _ _ _ => rfl, fun _ _ _ _ _ _ _ _ _ => rfl⟩, ordered⟩
  | cons event events ih =>
    cases event with
    | redirected source target users =>
      obtain ⟨anticipates, moves⟩ := moves
      obtain ⟨rest, orderedRest⟩ := ih (ordered_redirectUses ordered anticipates) moves
      exact ⟨(sameRuns_redirectUses ordered anticipates).trans rfl rest, orderedRest⟩
    | memoryWritten writer block removed queries => exact ih ordered moves
    | newExpression index => exact ih ordered moves

end Run

end BlockReuse
