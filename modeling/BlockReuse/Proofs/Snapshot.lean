import BlockReuse.Proofs.Addressing
import BlockReuse.Proofs.Renumbering

/-!
# Snapshots — what the basic oracle knew before a pass holds after it

The basic oracle looks at one function, and a pass goes on asking it while the function changes.
Geps are merged, and bases are replaced by their leaders. In a function without forward references
each step along a chain of geps still corresponds to one step: the gep that leads another has its
element type, its numbered base and its indices, if there are no more indices than a key tells
(`Straight.gepStep?_canon`). So the chain of a leader ends at the leader of where the old chain
ended, and goes through the same words (`Straight.origin_canon`). Objects are never merged, so what
was told apart by objects stays apart.
-/

set_option autoImplicit false

namespace BlockReuse

/-! ## Geps under a change of operands -/

namespace Instruction

variable {ν μ : Type}

theorem isGep_map (g : ν → μ) (x : Instruction ν) : (x.map g).isGep = x.isGep := by
  cases x <;> rfl

theorem isGep_iff_opcode {x : Instruction ν} :
    x.isGep = true ↔ ∃ element, x.opcode = .gep element := by
  cases x <;> simp [isGep, opcode]

/-- Whether an instruction is a gep shows in its opcode. -/
theorem isGep_congr {x y : Instruction ν} (same : y.opcode = x.opcode) : y.isGep = x.isGep := by
  rw [Bool.eq_iff_iff, isGep_iff_opcode, isGep_iff_opcode, same]

/-- The address of an access is one of its operands. -/
theorem pointer_mem_operands {x : Instruction Value} {l : Location}
    (touched : x.location? = some l) : l.pointer ∈ x.operands := by
  cases x with
  | load type pointer isVolatile =>
    cases touched
    exact List.mem_singleton_self pointer
  | store type value pointer isVolatile =>
    cases touched
    exact List.mem_cons_of_mem value (List.mem_singleton_self pointer)
  | _ => cases touched

end Instruction

namespace Func

variable {f : Func} {oracle : Oracle} {i j : Nat} {v : Value}

/-- No gep has more indices than a key tells. -/
def ShortGeps (f : Func) : Prop :=
  ∀ i element base indices, f.instruction? i = some (.gep element base indices) → indices.length ≤ 4

theorem gepStep?_of_not_isGep {x : Instruction Value} (found : f.instruction? i = some x)
    (other : x.isGep = false) : f.gepStep? (.inst i) = none := by
  simp only [gepStep?, Value.inst?, Option.bind_some, found]
  cases x with
  | gep element base indices => cases other
  | _ => rfl

/-- Instructions with one key are the same gep, or neither is one. -/
theorem gepStep?_eq_of_key? {key : ExpressionKey} (short : f.ShortGeps)
    (iKeyed : f.key? i = some key) (jKeyed : f.key? j = some key) :
    f.gepStep? (.inst j) = f.gepStep? (.inst i) := by
  obtain ⟨x, iFound, xKeyed⟩ := key?_eq_some.mp iKeyed
  obtain ⟨y, jFound, yKeyed⟩ := key?_eq_some.mp jKeyed
  have kinds : y.isGep = x.isGep := Instruction.isGep_congr
    ((Instruction.opcode_of_key? yKeyed).symm.trans (Instruction.opcode_of_key? xKeyed))
  have fits {k : Nat} {z : Instruction Value} (found : f.instruction? k = some z)
      (isGep : z.isGep = true) : z.operands.length ≤ keyWidth := by
    cases z with
    | gep element base indices =>
      have few := short k element base indices found
      simp only [Instruction.operands, List.length_cons, keyWidth]
      omega
    | _ => cases isGep
  cases isGep : x.isGep with
  | true =>
    have same : y = x := Instruction.eq_of_key?_eq yKeyed xKeyed
      (fits jFound (kinds.trans isGep)) (fits iFound isGep)
    simp only [gepStep?, Value.inst?, Option.bind_some, iFound, jFound, same]
  | false =>
    rw [gepStep?_of_not_isGep jFound (kinds.trans isGep), gepStep?_of_not_isGep iFound isGep]

/-! ## Chains of geps in the numbered function -/

/-- A numbering keeps constants, and makes none. -/
theorem gepShift?_map_canon (f : Func) (oracle : Oracle) (element : IrType) (indices : List Value) :
    gepShift? element (indices.map (f.canon Instruction.isReusable oracle)) =
      gepShift? element indices := by
  rw [gepShift?, gepShift?, List.foldlM_map]
  congr 1
  funext sum index
  cases index <;> rfl

theorem gepCount_numbered (f : Func) (oracle : Oracle) :
    (f.numbered oracle).gepCount = f.gepCount := by
  rw [gepCount, gepCount, numbered, instructions_mapOperands, List.countP_map]
  congr 1
  funext x
  exact x.isGep_map _

/-- The numbered function has the geps of the function, each with its base numbered. -/
theorem gepStep?_numbered (f : Func) (oracle : Oracle) (v : Value) :
    (f.numbered oracle).gepStep? v =
      (f.gepStep? v).map fun step => (f.canon Instruction.isReusable oracle step.1, step.2) := by
  cases v with
  | inst i =>
    simp only [gepStep?, Value.inst?, Option.bind_some, numbered, instruction?_mapOperands]
    cases found : f.instruction? i with
    | none => rfl
    | some x =>
      cases x with
      | gep element base indices =>
        simp only [Option.map_some, Instruction.map, gepShift?_map_canon]
      | _ => rfl
  | argument index => rfl
  | global index => rfl
  | const value => rfl

theorem ShortGeps.numbered (short : f.ShortGeps) (oracle : Oracle) :
    (f.numbered oracle).ShortGeps := by
  intro i element base indices found
  rw [Func.numbered, instruction?_mapOperands] at found
  obtain ⟨x, xFound, mapped⟩ := Option.map_eq_some_iff.mp found
  cases x with
  | gep element' base' indices' =>
    cases mapped
    rw [List.length_map]
    exact short i _ _ _ xFound
  | _ => cases mapped

/-- A leader and an instruction that it leads take the same step along a chain of geps. -/
theorem Straight.gepStep?_canon (straight : f.Straight) (short : f.ShortGeps) (oracle : Oracle)
    (v : Value) :
    (f.numbered oracle).gepStep? (f.canon Instruction.isReusable oracle v) =
      (f.gepStep? v).map fun step => (f.canon Instruction.isReusable oracle step.1, step.2) := by
  rw [← gepStep?_numbered]
  cases v with
  | inst i =>
    by_cases inside : i < f.instructions.length
    · rw [straight.canon_eq_leader inside]
      by_cases self : (f.numbered oracle).leader Instruction.isReusable oracle i = i
      · rw [self]
      · cases keyed : (f.numbered oracle).key? i with
        | some key =>
          have leaderKey := (standsFor_leader self).exists_key? keyed
          exact gepStep?_eq_of_key? (short.numbered oracle) keyed leaderKey
        | none => exact absurd (leader_of_key?_none keyed) self
    · rw [canon_inst_of_length_le (Nat.le_of_not_lt inside)]
  | argument index => rfl
  | global index => rfl
  | const value => rfl

/-- Following the chain of a leader leads to the leader of where the chain led. -/
theorem Straight.follow_canon (straight : f.Straight) (short : f.ShortGeps) (oracle : Oracle)
    (limit : Nat) (origin : Origin) :
    (f.numbered oracle).follow limit
        ⟨f.canon Instruction.isReusable oracle origin.base, origin.offset⟩ =
      (f.follow limit origin).map fun last =>
        ⟨f.canon Instruction.isReusable oracle last.base, last.offset⟩ := by
  induction limit generalizing origin with
  | zero => rfl
  | succ limit ih =>
    rw [follow, follow]
    simp only [straight.gepStep?_canon short]
    cases f.gepStep? origin.base with
    | none => rfl
    | some step => exact ih ⟨step.1, origin.offset.bind fun a => step.2.bind fun b => Word.add? a b⟩

/-- The origin of a leader has the numbered base, and the same offset. -/
theorem Straight.origin_canon (straight : f.Straight) (short : f.ShortGeps) (oracle : Oracle)
    (v : Value) :
    (f.numbered oracle).origin (f.canon Instruction.isReusable oracle v) =
      ⟨f.canon Instruction.isReusable oracle (f.origin v).base, (f.origin v).offset⟩ := by
  have followed := straight.follow_canon short oracle (f.gepCount + 1) ⟨v, some 0⟩
  rw [origin, origin, gepCount_numbered, followed]
  cases f.follow (f.gepCount + 1) ⟨v, some 0⟩ <;> rfl

/-! ## Objects -/

/-- An object is its own leader, and stays an object. -/
theorem Straight.canon_of_isObject (straight : f.Straight) (oracle : Oracle)
    (object : f.isObject v = true) :
    f.canon Instruction.isReusable oracle v = v ∧ (f.numbered oracle).isObject v = true := by
  cases v with
  | inst i =>
    cases found : f.instruction? i with
    | none => simp [isObject, found] at object
    | some x =>
      have numberedAt : (f.numbered oracle).instruction? i =
          some (x.map (f.canon Instruction.isReusable oracle)) := by
        rw [numbered, instruction?_mapOperands, found, Option.map_some]
      cases x with
      | alloca type =>
        have self : (f.numbered oracle).leader Instruction.isReusable oracle i = i :=
          leader_of_not_reusable (by rw [numberedAt]; rfl)
        rw [instruction?_eq_getElem?] at found
        have inside := (List.getElem?_eq_some_iff.mp found).1
        refine ⟨by rw [straight.canon_eq_leader inside, self], ?_⟩
        simp only [isObject, numberedAt, Instruction.map]
      | _ => simp [isObject, found] at object
  | global index => exact ⟨rfl, rfl⟩
  | argument index => cases object
  | const value => cases object

end Func

/-! ## Answers -/

namespace Oracle

variable {f : Func} {oracle : Oracle} {a b : Location}

/-- What the oracle knows about numbered pointers, it knows of the numbered function. -/
theorem basic_numbered (straight : f.Straight) (short : f.ShortGeps)
    (aNumbered : f.canon Instruction.isReusable oracle a.pointer = a.pointer)
    (bNumbered : f.canon Instruction.isReusable oracle b.pointer = b.pointer)
    (known : basic f a b ≠ .may) : basic (f.numbered oracle) a b = basic f a b := by
  have aOrigin := straight.origin_canon short oracle a.pointer
  have bOrigin := straight.origin_canon short oracle b.pointer
  rw [aNumbered] at aOrigin
  rw [bNumbered] at bOrigin
  rcases basic_cases rfl known with ⟨same, must⟩ | ⟨x, y, base, xKnown, yKnown, compared⟩ |
    ⟨distinct, aObject, bObject, no⟩
  · rw [must, basic, if_pos same]
  · by_cases same : a = b
    · rw [basic, basic, if_pos same, if_pos same]
    · rw [← compared, basic, if_neg same]
      simp only [aOrigin, bOrigin, base, xKnown, yKnown, if_true]
  · have same : a ≠ b := fun same => distinct (by rw [same])
    obtain ⟨aFixed, aObject⟩ := straight.canon_of_isObject oracle aObject
    obtain ⟨bFixed, bObject⟩ := straight.canon_of_isObject oracle bObject
    rw [no, basic, if_neg same]
    simp only [aOrigin, bOrigin, aFixed, bFixed, if_neg distinct, aObject, bObject, Bool.and_self,
      if_true]

/-- What the oracle of a function knows about two accesses of the function that a pass makes of it,
the oracle of the latter knows too. -/
theorem basic_reuse_of_known (straight : f.Straight) (short : f.ShortGeps) (oracle : Oracle)
    {i j : Nat} (first : (reuse oracle f).func.location? i = some a)
    (second : (reuse oracle f).func.location? j = some b) (known : basic f a b ≠ .may) :
    basic (reuse oracle f).func a b = basic f a b := by
  have numbered {k : Nat} {l : Location} (touched : (reuse oracle f).func.location? k = some l) :
      f.canon Instruction.isReusable oracle l.pointer = l.pointer := by
    rw [straight.func_reuse] at touched
    obtain ⟨x, found, touched⟩ := Option.bind_eq_some_iff.mp touched
    exact straight.canon_of_mem_operands found (Instruction.pointer_mem_operands touched)
  rw [straight.func_reuse]
  exact basic_numbered straight short (numbered first) (numbered second) known

/-- Two geps into an object that are one, each with a gep on top, a load of the object's first bytes
and a store behind them. -/
def mergedGeps : Func where
  name := "f"
  arguments := ["x"]
  globals := []
  definitions :=
    [⟨.alloca (.int 64), some "a"⟩, ⟨.gep (.int 16) (.inst 0) [.const 1], some "p"⟩,
      ⟨.gep (.int 16) (.inst 0) [.const 1], some "q"⟩,
      ⟨.gep (.int 8) (.inst 1) [.const 1, .const 1], some "r"⟩,
      ⟨.gep (.int 8) (.inst 2) [.const 1, .const 1], some "s"⟩,
      ⟨.load (.int 32) (.inst 0) false, some "v"⟩,
      ⟨.store (.int 32) (.argument 0) (.inst 4) false, none⟩]
  blocks := [⟨"entry", [0, 1, 2, 3, 4, 5, 6]⟩]
  placed := by decide

theorem shortGeps_mergedGeps : mergedGeps.ShortGeps := by
  intro i element base indices found
  match i with
  | 0 | 5 | 6 => cases found
  | 1 | 2 | 3 | 4 =>
    cases found
    decide
  | i + 7 => cases found

/-- The store goes through the first chain after the pass, where the oracle of the old function
still tells it apart from the load, and so does that of the new one. -/
theorem basic_reuse_of_mergedGeps :
    mergedGeps.Straight ∧
    (reuse .conservative mergedGeps).func.location? 5 = some ⟨.inst 0, 4⟩ ∧
    (reuse .conservative mergedGeps).func.location? 6 = some ⟨.inst 3, 4⟩ ∧
    basic mergedGeps ⟨.inst 0, 4⟩ ⟨.inst 3, 4⟩ = .no ∧
    basic (reuse .conservative mergedGeps).func ⟨.inst 0, 4⟩ ⟨.inst 3, 4⟩ =
      basic mergedGeps ⟨.inst 0, 4⟩ ⟨.inst 3, 4⟩ := by
  have straight : mergedGeps.Straight := by decide +kernel
  have loaded : (reuse .conservative mergedGeps).func.location? 5 = some ⟨.inst 0, 4⟩ := by
    decide +kernel
  have stored : (reuse .conservative mergedGeps).func.location? 6 = some ⟨.inst 3, 4⟩ := by
    decide +kernel
  have apart : basic mergedGeps ⟨.inst 0, 4⟩ ⟨.inst 3, 4⟩ = .no := by decide
  exact ⟨straight, loaded, stored, apart,
    basic_reuse_of_known straight shortGeps_mergedGeps .conservative loaded stored
      (by rw [apart]; decide)⟩

end Oracle

end BlockReuse
