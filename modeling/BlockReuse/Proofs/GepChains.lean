import Mathlib.Algebra.BigOperators.Group.List.Basic
import Mathlib.Algebra.Ring.Int.Defs
import Mathlib.Data.List.Nodup
import BlockReuse.Alias.Origin

/-!
# Gep chains — the origin of a pointer is where its chain of geps ends

Following bases from a pointer through its geps either ends at a value that is no gep or never ends
(`Func.GepChain`). The search for an origin looks at no more bases than the function has geps and
one. That is enough for every chain that ends: from a gep on there is only one chain that ends, so a
chain that came back to a gep would have to be shorter than itself. Its geps are therefore different
geps of the function (`Func.GepChain.length_le`). A chain that never ends is cut off whatever the
bound is.

The offset is a sum of sums, each of which is added up word by word. It is known exactly if every
index is a constant and every product, every sum on the way within a gep and every sum on the way
along the chain is a word (`GepLink.Known`, `GepLink.KnownAlong`). Both sums are the same
computation on other summands (`Word.sumFrom?_map_eq_some`).
-/

set_option autoImplicit false

namespace BlockReuse

/-! ## Sums of words -/

namespace Word

/-- Summands added one by one to what there is, as long as each is known and each sum is a word. -/
def sumFrom? : Int → List (Option Int) → Option Int
  | sum, [] => some sum
  | sum, summand :: rest => (summand.bind (add? sum)).bind fun next => sumFrom? next rest

/-- A sum is known exactly if all summands are and every sum on the way is a word, and then it is
the exact one. -/
theorem sumFrom?_map_eq_some {α : Type} {summand? : α → Option Int} {Known : α → Prop}
    {exact : α → Int} (each : ∀ a n, summand? a = some n ↔ Known a ∧ exact a = n) {sum n : Int}
    (start : fits sum = true) (items : List α) :
    sumFrom? sum (items.map summand?) = some n ↔
      (∀ a ∈ items, Known a) ∧
      (∀ front, front <+: items → fits (sum + (front.map exact).sum) = true) ∧
      sum + (items.map exact).sum = n := by
  induction items generalizing sum with
  | nil => simp [sumFrom?, start]
  | cons a items ih =>
    have step (next : Int) : (summand? a).bind (add? sum) = some next ↔
        Known a ∧ fits next = true ∧ sum + exact a = next := by
      simp only [Option.bind_eq_some_iff, each, add?, checked_eq_some]
      constructor
      · rintro ⟨_, ⟨known, rfl⟩, fits, rfl⟩
        exact ⟨known, fits, rfl⟩
      · rintro ⟨known, fits, rfl⟩
        exact ⟨_, ⟨known, rfl⟩, fits, rfl⟩
    rw [List.map_cons, sumFrom?, Option.bind_eq_some_iff]
    constructor
    · rintro ⟨next, added, more⟩
      obtain ⟨known, fits, rfl⟩ := (step next).mp added
      obtain ⟨knownMore, fitsMore, rfl⟩ := (ih fits).mp more
      refine ⟨List.forall_mem_cons.mpr ⟨known, knownMore⟩, ?_, ?_⟩
      · intro front isFront
        rcases List.prefix_cons_iff.mp isFront with rfl | ⟨more, rfl, within⟩
        · simpa using start
        · simpa [Int.add_assoc] using fitsMore more within
      · simp [Int.add_assoc]
    · rintro ⟨known, fits, rfl⟩
      obtain ⟨known, knownMore⟩ := List.forall_mem_cons.mp known
      have fitsFirst : Word.fits (sum + exact a) = true := by
        simpa using fits [a] (List.prefix_append [a] items)
      refine ⟨_, (step _).mpr ⟨known, fitsFirst, rfl⟩, (ih fitsFirst).mpr ⟨knownMore, ?_, ?_⟩⟩
      · intro front isFront
        simpa [Int.add_assoc] using fits (a :: front) ((List.prefix_cons_inj a).mpr isFront)
      · simp [Int.add_assoc]

end Word

/-! ## What the geps of a chain add -/

/-- One gep of a chain: which instruction it is, and what it shifts its base by. -/
structure GepLink where
  index : Nat
  element : IrType
  indices : List Value

namespace GepLink

/-- The bytes an index moves a pointer by, which is nothing known if it is no constant. -/
def move (l : GepLink) : Value → Int
  | .const c => c.toInt * l.element.byteSize
  | _ => 0

/-- The bytes a gep shifts its base by. -/
def shift (l : GepLink) : Int := (l.indices.map l.move).sum

/-- The shift of a gep is known. -/
structure Known (l : GepLink) : Prop where
  constants : ∀ v ∈ l.indices, ∃ c, v = .const c
  products : ∀ v ∈ l.indices, Word.fits (l.move v) = true
  sums : ∀ front, front <+: l.indices → Word.fits (front.map l.move).sum = true

/-- The bytes all geps of a chain shift its end by. -/
def distance (links : List GepLink) : Int := (links.map shift).sum

/-- The shifts of a chain of geps are known, and so is their sum. -/
structure KnownAlong (links : List GepLink) : Prop where
  shifts : ∀ l ∈ links, l.Known
  sums : ∀ front, front <+: links → Word.fits (distance front) = true

/-- The shift that is found for a gep. -/
def shift? (l : GepLink) : Option Int := gepShift? l.element l.indices

/-- The product that is found for an index. -/
def move? (l : GepLink) : Value → Option Int
  | .const c => Word.mul? c.toInt l.element.byteSize
  | _ => none

theorem move?_eq_some {l : GepLink} (v : Value) (n : Int) :
    l.move? v = some n ↔ ((∃ c, v = .const c) ∧ Word.fits (l.move v) = true) ∧ l.move v = n := by
  cases v with
  | const c =>
    show Word.checked (c.toInt * l.element.byteSize) = some n ↔ _
    rw [Word.checked_eq_some]
    constructor
    · intro ⟨fits, product⟩
      exact ⟨⟨⟨c, rfl⟩, fits⟩, product⟩
    · intro ⟨⟨_, fits⟩, product⟩
      exact ⟨fits, product⟩
  | inst index => simp [move?]
  | argument index => simp [move?]
  | global index => simp [move?]

theorem shift?_eq_sumFrom? (l : GepLink) : l.shift? = Word.sumFrom? 0 (l.indices.map l.move?) := by
  rw [shift?, gepShift?]
  generalize (0 : Int) = sum
  induction l.indices generalizing sum with
  | nil => rfl
  | cons v indices ih =>
    rw [List.foldlM_cons, List.map_cons, Word.sumFrom?]
    cases v with
    | const c => exact Option.bind_congr fun next _ => ih next
    | inst index => rfl
    | argument index => rfl
    | global index => rfl

/-- A shift is found exactly if it is known. -/
theorem shift?_eq_some (l : GepLink) (n : Int) : l.shift? = some n ↔ l.Known ∧ l.shift = n := by
  rw [shift?_eq_sumFrom?, Word.sumFrom?_map_eq_some move?_eq_some (by decide)]
  simp only [Int.zero_add]
  constructor
  · rintro ⟨moves, sums, rfl⟩
    exact ⟨⟨fun v mem => (moves v mem).1, fun v mem => (moves v mem).2, sums⟩, rfl⟩
  · rintro ⟨known, rfl⟩
    exact ⟨fun v mem => ⟨known.constants v mem, known.products v mem⟩, known.sums, rfl⟩

/-- The sum along a chain is found exactly if it is known. -/
theorem sumFrom?_shift?_eq_some (links : List GepLink) (n : Int) :
    Word.sumFrom? 0 (links.map shift?) = some n ↔ KnownAlong links ∧ distance links = n := by
  rw [Word.sumFrom?_map_eq_some shift?_eq_some (by decide)]
  simp only [Int.zero_add]
  constructor
  · rintro ⟨known, sums, rfl⟩
    exact ⟨⟨known, sums⟩, rfl⟩
  · rintro ⟨known, rfl⟩
    exact ⟨known.shifts, known.sums, rfl⟩

theorem isSome_sumFrom?_shift? (links : List GepLink) :
    (Word.sumFrom? 0 (links.map shift?)).isSome = true ↔ KnownAlong links := by
  simp only [Option.isSome_iff_exists, sumFrom?_shift?_eq_some, exists_and_left, exists_eq',
    and_true]

instance (links : List GepLink) : Decidable (KnownAlong links) :=
  decidable_of_iff _ (isSome_sumFrom?_shift? links)

end GepLink

/-! ## Chains -/

namespace Func

/-- A value is the result of a gep. -/
def IsGep (f : Func) (v : Value) : Prop :=
  ∃ index element base indices, v = .inst index ∧
    f.instruction? index = some (.gep element base indices)

/-- Following bases from a pointer through some geps leads to a value. -/
inductive GepChain (f : Func) : Value → List GepLink → Value → Prop
  | nil (v : Value) : f.GepChain v [] v
  | cons {index : Nat} {element : IrType} {base last : Value} {indices : List Value}
      {links : List GepLink} (found : f.instruction? index = some (.gep element base indices))
      (more : f.GepChain base links last) :
      f.GepChain (.inst index) (⟨index, element, indices⟩ :: links) last

variable {f : Func} {pointer last : Value} {links : List GepLink}

theorem gepStep?_inst {index : Nat} {element : IrType} {base : Value} {indices : List Value}
    (found : f.instruction? index = some (.gep element base indices)) :
    f.gepStep? (.inst index) = some (base, gepShift? element indices) := by
  simp [gepStep?, Value.inst?, found]

theorem isSome_gepStep? (f : Func) (v : Value) : (f.gepStep? v).isSome = true ↔ f.IsGep v := by
  constructor
  · intro isStep
    unfold gepStep? at isStep
    split at isStep
    · next element base indices found =>
      obtain ⟨index, named, found⟩ := Option.bind_eq_some_iff.mp found
      have inst : v = .inst index := by
        cases v <;> simp_all [Value.inst?]
      exact ⟨index, element, base, indices, inst, found⟩
    · cases isStep
  · rintro ⟨index, element, base, indices, rfl, found⟩
    rw [gepStep?_inst found]
    rfl

instance (f : Func) (v : Value) : Decidable (f.IsGep v) :=
  decidable_of_iff _ (f.isSome_gepStep? v)

theorem gepStep?_eq_none (ends : ¬ f.IsGep last) : f.gepStep? last = none := by
  rwa [← isSome_gepStep?, Option.not_isSome_iff_eq_none] at ends

/-- A chain that ends is followed to its end, where as many looks as it has values are allowed. -/
theorem GepChain.follow (chain : f.GepChain pointer links last) (ends : ¬ f.IsGep last)
    {limit : Nat} (within : links.length < limit) (offset : Option Int) :
    f.follow limit ⟨pointer, offset⟩ =
      some ⟨last, offset.bind fun sum => Word.sumFrom? sum (links.map GepLink.shift?)⟩ := by
  induction chain generalizing limit offset with
  | nil v =>
    obtain ⟨limit, rfl⟩ := Nat.exists_eq_add_one.mpr within
    simp [Func.follow, gepStep?_eq_none ends, Word.sumFrom?]
  | @cons index element base last indices links found more ih =>
    obtain ⟨limit, rfl⟩ := Nat.exists_eq_add_one_of_ne_zero (Nat.ne_zero_of_lt within)
    rw [Func.follow, gepStep?_inst found]
    simp only [ih ends (Nat.lt_of_succ_lt_succ within)]
    simp only [List.map_cons, Word.sumFrom?, Option.bind_assoc]
    rfl

/-- A chain that never ends is cut off. -/
theorem follow_eq_none (endless : ∀ links last, f.GepChain pointer links last → f.IsGep last)
    (limit : Nat) (offset : Option Int) : f.follow limit ⟨pointer, offset⟩ = none := by
  induction limit generalizing pointer offset with
  | zero => rfl
  | succ limit ih =>
    obtain ⟨index, element, base, indices, rfl, found⟩ := endless [] pointer (.nil pointer)
    rw [Func.follow, gepStep?_inst found]
    apply ih
    intro links last more
    exact endless _ last (.cons found more)

/-! ## Chains that end have no more geps than the function -/

/-- Only one chain ends, wherever it starts. -/
theorem GepChain.eq_of_ends {links' : List GepLink} {last' : Value}
    (chain : f.GepChain pointer links last) (ends : ¬ f.IsGep last)
    (chain' : f.GepChain pointer links' last') (ends' : ¬ f.IsGep last') : links = links' := by
  induction chain generalizing links' with
  | nil v =>
    cases chain' with
    | nil => rfl
    | cons found more => exact absurd ⟨_, _, _, _, rfl, found⟩ ends
  | cons found more ih =>
    cases chain' with
    | nil => exact absurd ⟨_, _, _, _, rfl, found⟩ ends'
    | cons found' more' =>
      obtain ⟨rfl, rfl, rfl⟩ : _ = _ ∧ _ = _ ∧ _ = _ := by simpa [found] using found'
      rw [ih ends more']

/-- A chain goes on from each of its geps. -/
theorem GepChain.from_mem (chain : f.GepChain pointer links last) {l : GepLink} (mem : l ∈ links) :
    ∃ rest, rest.length < links.length ∧ f.GepChain (.inst l.index) (l :: rest) last := by
  induction chain with
  | nil v => cases mem
  | cons found more ih =>
    rcases List.mem_cons.mp mem with rfl | mem
    · exact ⟨_, Nat.lt_succ_self _, .cons found more⟩
    · obtain ⟨rest, shorter, goesOn⟩ := ih mem
      exact ⟨rest, Nat.lt_succ_of_lt shorter, goesOn⟩

/-- A chain that ends does not come back to a gep: from there it would be shorter than it is. -/
theorem GepChain.nodup (chain : f.GepChain pointer links last) (ends : ¬ f.IsGep last) :
    (links.map GepLink.index).Nodup := by
  induction chain with
  | nil v => exact List.nodup_nil
  | cons found more ih =>
    apply List.nodup_cons.mpr
    constructor
    · intro again
      obtain ⟨l, mem, same⟩ := List.mem_map.mp again
      obtain ⟨rest, shorter, goesOn⟩ := more.from_mem mem
      rw [same] at goesOn
      obtain ⟨-, rfl⟩ := List.cons.inj ((GepChain.cons found more).eq_of_ends ends goesOn ends)
      exact absurd shorter (Nat.lt_irrefl _)
    · exact ih ends

/-- The places of the geps of a function. -/
def gepIndices (f : Func) : List Nat :=
  (f.instructions.zipIdx.filter fun p => p.1.isGep).map Prod.snd

theorem length_gepIndices (f : Func) : f.gepIndices.length = f.gepCount := by
  rw [gepIndices, List.length_map, ← List.countP_eq_length_filter, gepCount]
  conv_rhs => rw [← List.zipIdx_map_fst 0 f.instructions, List.countP_map]
  rfl

theorem GepChain.mem_gepIndices (chain : f.GepChain pointer links last) {l : GepLink}
    (mem : l ∈ links) : l.index ∈ f.gepIndices := by
  obtain ⟨rest, -, goesOn⟩ := chain.from_mem mem
  obtain ⟨index, element, indices⟩ := l
  cases goesOn with
  | cons found more =>
    rw [instruction?_eq_getElem?] at found
    have placed : (_, index) ∈ f.instructions.zipIdx := List.mem_zipIdx_iff_getElem?.mpr found
    exact List.mem_map.mpr ⟨_, List.mem_filter.mpr ⟨placed, rfl⟩, rfl⟩

/-- A chain that ends has no more geps than the function. -/
theorem GepChain.length_le (chain : f.GepChain pointer links last) (ends : ¬ f.IsGep last) :
    links.length ≤ f.gepCount := by
  have among : links.map GepLink.index ⊆ f.gepIndices := by
    intro index visited
    obtain ⟨l, mem, rfl⟩ := List.mem_map.mp visited
    exact chain.mem_gepIndices mem
  have le := (List.subperm_of_subset (chain.nodup ends) among).length_le
  rwa [List.length_map, length_gepIndices] at le

/-! ## Origins -/

/-- **The origin of a pointer is where its chain of geps ends**, however long the chain is. The
offset is the exact sum of the shifts where it is known, and none is claimed where it is not. A
pointer whose chain never ends is its own base, at an unknown offset. -/
theorem origin_at_end_of_chain (f : Func) (pointer : Value) :
    (∀ links last, f.GepChain pointer links last → ¬ f.IsGep last →
      (f.origin pointer).base = last ∧
      (GepLink.KnownAlong links → (f.origin pointer).offset = some (GepLink.distance links)) ∧
      (¬ GepLink.KnownAlong links → (f.origin pointer).offset = none)) ∧
    ((∀ links last, f.GepChain pointer links last → f.IsGep last) →
      f.origin pointer = ⟨pointer, none⟩) := by
  constructor
  · intro links last chain ends
    have within : links.length < f.gepCount + 1 := Nat.lt_succ_of_le (chain.length_le ends)
    have found : f.origin pointer = ⟨last, Word.sumFrom? 0 (links.map GepLink.shift?)⟩ := by
      rw [origin, chain.follow ends within]
      rfl
    rw [found]
    refine ⟨rfl, ?_, ?_⟩
    · intro known
      exact (GepLink.sumFrom?_shift?_eq_some links _).mpr ⟨known, rfl⟩
    · intro unknown
      rwa [← GepLink.isSome_sumFrom?_shift?, Option.not_isSome_iff_eq_none] at unknown
  · intro endless
    rw [origin, follow_eq_none endless]
    rfl

/-- A chain of three geps in front of their bases, two geps each of which is the base of the other,
and a gep with a product that is no word although its shift is one. -/
def crossedGeps : Func where
  name := "f"
  arguments := ["p"]
  globals := []
  definitions :=
    [⟨.gep (.int 32) (.inst 1) [.const 1, .const (-3)], some "a"⟩,
      ⟨.gep (.int 64) (.inst 2) [.const 2], some "b"⟩, ⟨.gep .ptr (.argument 0) [], some "c"⟩,
      ⟨.gep (.int 8) (.inst 4) [.const 1], some "x"⟩,
      ⟨.gep (.int 8) (.inst 3) [.const 1], some "y"⟩,
      ⟨.gep .f64 (.inst 2) [.const (-1), .const 0x1000000000000000], some "z"⟩]
  blocks := [⟨"entry", [0, 1, 2, 3, 4, 5]⟩]
  placed := by decide

theorem isGep_of_crossedGeps {pointer last : Value} {links : List GepLink}
    (start : pointer = .inst 3 ∨ pointer = .inst 4)
    (chain : crossedGeps.GepChain pointer links last) :
    crossedGeps.IsGep last := by
  induction chain with
  | nil v => rcases start with rfl | rfl <;> decide
  | cons found more ih =>
    rcases start with same | same <;> cases same <;> cases found
    · exact ih (.inr rfl)
    · exact ih (.inl rfl)

/-- The chain of three ends eight bytes from the argument, the product that is no word leaves the
distance open, and the two geps that lead to each other have no origin. -/
theorem origin_at_end_of_crossedGeps :
    (crossedGeps.origin (.inst 0)).base = .argument 0 ∧
    (crossedGeps.origin (.inst 0)).offset = some 8 ∧
    (crossedGeps.origin (.inst 5)).base = .argument 0 ∧
    (crossedGeps.origin (.inst 5)).offset = none ∧
    crossedGeps.origin (.inst 3) = ⟨.inst 3, none⟩ := by
  have ending : crossedGeps.GepChain (.inst 2) _ (.argument 0) := .cons rfl (.nil _)
  have long : crossedGeps.GepChain (.inst 0) _ (.argument 0) := .cons rfl (.cons rfl ending)
  have short : crossedGeps.GepChain (.inst 5) _ (.argument 0) := .cons rfl ending
  obtain ⟨base, known, -⟩ := (origin_at_end_of_chain crossedGeps (.inst 0)).1 _ _ long (by decide)
  obtain ⟨base', -, unknown⟩ :=
    (origin_at_end_of_chain crossedGeps (.inst 5)).1 _ _ short (by decide)
  have endless := (origin_at_end_of_chain crossedGeps (.inst 3)).2
  refine ⟨base, (known (by decide)).trans (by decide), base', unknown (by decide), ?_⟩
  exact endless fun _ _ chain => isGep_of_crossedGeps (.inl rfl) chain

end Func

end BlockReuse
