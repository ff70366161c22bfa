import BlockReuse.Ir.Relocation
import BlockReuse.Proofs.Cursors
import BlockReuse.Proofs.Diagnostics

/-!
# Placeholders — reading a body in one go, with names that are bound later

The names of a body can be resolved while its statements are read, one after the other. A local name
that is bound when it is used is read as what it is bound to, and one that is not bound yet as a
placeholder, an instruction with an index counted down from the largest there is. When the body
ends, every placeholder is replaced by what its name is bound to then; a name that still is not
bound is reported where it was used first.

An operand stands for the same as long as names are only added (`Known.Stands.mono`), so what a
draft resolves at its end is what was read on the way: every binding is that of the whole draft
(`Intake.Follows`). Placeholders are told from instructions by their indices, which do not meet as
long as the statements and the uses of names together are no more than there are indices. A body has
a token for each of them (`Remainder.size_le`), so this is no restriction for tokens that have
indices themselves (`functionAtOnce_eq`).
-/

set_option autoImplicit false

namespace BlockReuse.Source

open BlockReuse.Source.Parser

/-! ## Reading in one go -/

/-- The largest index there is. -/
def largestIndex : Nat := 2 ^ 64 - 1

/-- What is known in the middle of a body: what names are bound to, the first uses of names that
were not bound then, and the globals. -/
structure Known where
  values : String → Option Value
  awaited : List Token
  globals : List String

namespace Known

/-- Binds one more name, if there is one. -/
def bind (k : Known) (name : Option String) (v : Value) : Known :=
  match name with
  | some name => { k with values := Function.update k.values name (some v) }
  | none => k

/-- What stands in for a name that is awaited. -/
def placeholder (k : Known) (name : String) : Value :=
  .inst (largestIndex - (k.awaited.map Token.text).idxOf name)

/-- Takes note of an operand: of a local name that is neither bound nor awaited, and of a new
global. -/
def note (k : Known) : Operand → Known
  | .localName t =>
    if (k.values t.text).isSome ∨ t.text ∈ k.awaited.map Token.text then k
    else { k with awaited := k.awaited ++ [t] }
  | .globalName name =>
    if name ∈ k.globals then k else { k with globals := k.globals ++ [name] }
  | .constant _ => k

/-- What an operand is read as that has been noted. -/
def image (k : Known) : Operand → Value
  | .localName t => (k.values t.text).getD (k.placeholder t.text)
  | .globalName name => .global (k.globals.idxOf name)
  | .constant c => .const c

/-- Reads an operand. -/
def read (o : Operand) : StateM Known Value := fun k => ((k.note o).image o, k.note o)

/-- Reads an instruction: its operands are noted in the order of the text. -/
def instruction (k : Known) (x : Instruction Operand) : Instruction Value × Known :=
  let after := x.written.foldl note k
  (x.map after.image, after)

/-- What the awaited names are bound to, or the first that is not bound. -/
def bindings (k : Known) : Except Token (List Value) :=
  k.awaited.mapM fun t =>
    match k.values t.text with
    | some v => .ok v
    | none => .error t

end Known

/-- What has been read of a body. -/
structure Intake where
  known : Known
  definitions : List Definition

namespace Intake

/-- Before the body, the arguments are bound. -/
def start (arguments : List String) : Intake :=
  let values := arguments.zipIdx.foldl
    (fun values (name, place) => Function.update values name (some (.argument place)))
    fun _ => none
  ⟨⟨values, [], []⟩, []⟩

/-- Reads one more statement. Its name is bound behind it. -/
def statement (s : Intake) (x : Statement) : Intake :=
  let (instruction, known) := s.known.instruction x.instruction
  ⟨known.bind x.resultName (.inst s.definitions.length),
    s.definitions ++ [⟨instruction, x.resultName⟩]⟩

/-- What takes the place of a value when the placeholders are given up. -/
def settled (bindings : List Value) : Value → Value
  | .inst index => bindings[largestIndex - index]?.getD (.inst index)
  | v => v

/-- A definition without placeholders. -/
def settle (bindings : List Value) (d : Definition) : Definition :=
  { d with instruction := (d.instruction.relocate (settled bindings)).instruction }

/-- The definitions at the end of the body, or the first use of a name that is nowhere bound. -/
def finish (s : Intake) : Except Token (List Definition) :=
  match s.known.bindings with
  | .error t => .error t
  | .ok bindings => .ok (s.definitions.map (settle bindings))

end Intake

/-- The definitions and the globals of a draft, read in one go. -/
def Draft.readAtOnce (d : Draft) : Except Token (List Definition × List String) :=
  let s := d.statements.foldl Intake.statement (.start d.arguments)
  s.finish.map fun definitions => (definitions, s.known.globals)

/-! ## Operands -/

namespace Known

variable {k after : Known} {o : Operand} {os : List Operand} {v : Value}

/-- Everything that is known stays known. -/
structure Extends (k after : Known) : Prop where
  values : ∀ name v, k.values name = some v → after.values name = some v
  awaited : k.awaited <+: after.awaited
  globals : k.globals <+: after.globals

theorem Extends.refl (k : Known) : k.Extends k :=
  ⟨fun _ _ bound => bound, List.prefix_refl _, List.prefix_refl _⟩

theorem Extends.trans {last : Known} (first : k.Extends after) (second : after.Extends last) :
    k.Extends last :=
  ⟨fun name v bound => second.values name v (first.values name v bound),
    first.awaited.trans second.awaited, first.globals.trans second.globals⟩

/-- There is something that an operand is read as. -/
def Knows (k : Known) : Operand → Prop
  | .localName t => (k.values t.text).isSome ∨ t.text ∈ k.awaited.map Token.text
  | .globalName name => name ∈ k.globals
  | .constant _ => True

/-- An operand is read as this value, or was when less was known. -/
def Stands (k : Known) : Operand → Value → Prop
  | .localName t, v =>
    k.values t.text = some v ∨ (t.text ∈ k.awaited.map Token.text ∧ v = k.placeholder t.text)
  | .globalName name, v => name ∈ k.globals ∧ v = .global (k.globals.idxOf name)
  | .constant c, v => v = .const c

theorem idxOf_of_isPrefix {as bs : List String} {a : String} (le : as <+: bs) (mem : a ∈ as) :
    bs.idxOf a = as.idxOf a := by
  obtain ⟨rest, rfl⟩ := le
  exact List.idxOf_append_of_mem mem

theorem placeholder_of_extends {name : String} (grows : k.Extends after)
    (awaited : name ∈ k.awaited.map Token.text) : after.placeholder name = k.placeholder name := by
  rw [placeholder, placeholder, idxOf_of_isPrefix (grows.awaited.map Token.text) awaited]

theorem Knows.mono (knows : k.Knows o) (grows : k.Extends after) : after.Knows o := by
  cases o with
  | localName t =>
    rcases knows with bound | awaited
    · obtain ⟨v, bound⟩ := Option.isSome_iff_exists.mp bound
      exact .inl (by rw [grows.values _ _ bound]; rfl)
    · exact .inr ((grows.awaited.map Token.text).subset awaited)
  | globalName name => exact grows.globals.subset knows
  | constant c => trivial

theorem Stands.mono (stands : k.Stands o v) (grows : k.Extends after) : after.Stands o v := by
  cases o with
  | localName t =>
    rcases stands with bound | ⟨awaited, rfl⟩
    · exact .inl (grows.values _ _ bound)
    · exact .inr ⟨(grows.awaited.map Token.text).subset awaited,
        (placeholder_of_extends grows awaited).symm⟩
  | globalName name =>
    obtain ⟨mem, rfl⟩ := stands
    exact ⟨grows.globals.subset mem, by rw [idxOf_of_isPrefix grows.globals mem]⟩
  | constant c => exact stands

theorem Knows.stands (knows : k.Knows o) : k.Stands o (k.image o) := by
  cases o with
  | localName t =>
    cases bound : k.values t.text with
    | some v => exact .inl (by simp [image, bound])
    | none => exact .inr ⟨by simpa [Knows, bound] using knows, by simp [image, bound]⟩
  | globalName name => exact ⟨knows, rfl⟩
  | constant c => rfl

/-- What an operand is read as changes only when a name is bound. -/
theorem Knows.image_eq (knows : k.Knows o) (grows : k.Extends after)
    (same : after.values = k.values) : after.image o = k.image o := by
  cases o with
  | localName t =>
    cases bound : k.values t.text with
    | some v => simp [image, same, bound]
    | none =>
      have awaited : t.text ∈ k.awaited.map Token.text := by simpa [Knows, bound] using knows
      simp [image, same, bound, placeholder_of_extends grows awaited]
  | globalName name => simp only [image, idxOf_of_isPrefix grows.globals knows]
  | constant c => rfl

theorem values_note (k : Known) (o : Operand) : (k.note o).values = k.values := by
  cases o <;> simp only [note] <;> split <;> rfl

theorem extends_note (k : Known) (o : Operand) : k.Extends (k.note o) := by
  refine ⟨fun name v bound => by rw [values_note, bound], ?_, ?_⟩
  · cases o with
    | localName t => simp only [note]; split <;> simp
    | globalName name => simp only [note]; split <;> exact List.prefix_refl _
    | constant c => exact List.prefix_refl _
  · cases o with
    | localName t => simp only [note]; split <;> exact List.prefix_refl _
    | globalName name => simp only [note]; split <;> simp
    | constant c => exact List.prefix_refl _

theorem knows_note (k : Known) (o : Operand) : (k.note o).Knows o := by
  cases o with
  | localName t =>
    by_cases already : (k.values t.text).isSome ∨ t.text ∈ k.awaited.map Token.text
    · rw [note, if_pos already]
      exact already
    · rw [note, if_neg already]
      exact .inr (by simp)
  | globalName name =>
    by_cases already : name ∈ k.globals
    · rw [note, if_pos already]
      exact already
    · rw [note, if_neg already]
      exact List.mem_append_right _ (List.mem_singleton_self name)
  | constant c => trivial

theorem values_notes (k : Known) (os : List Operand) : (os.foldl note k).values = k.values := by
  induction os generalizing k with
  | nil => rfl
  | cons o os ih => rw [List.foldl_cons, ih, values_note]

theorem extends_notes (k : Known) (os : List Operand) : k.Extends (os.foldl note k) := by
  induction os generalizing k with
  | nil => exact .refl k
  | cons o os ih => exact (extends_note k o).trans (ih (k.note o))

theorem knows_notes (k : Known) (mem : o ∈ os) : (os.foldl note k).Knows o := by
  induction os generalizing k with
  | nil => cases mem
  | cons first os ih =>
    rcases List.mem_cons.mp mem with rfl | mem
    · exact (knows_note k o).mono (extends_notes _ os)
    · exact ih (k.note first) mem

/-- Operands are read one by one as what they are read as when all of them have been noted. -/
theorem mapM_read (k : Known) (os : List Operand) :
    (os.mapM read).run k = pure (os.map (os.foldl note k).image, os.foldl note k) := by
  induction os generalizing k with
  | nil => rfl
  | cons o os ih =>
    have first : (os.foldl note (k.note o)).image o = (k.note o).image o :=
      (knows_note k o).image_eq (extends_notes _ os) (values_notes _ os)
    have here : (read o).run k = pure ((k.note o).image o, k.note o) := rfl
    simp [List.mapM_cons, here, ih, first]

/-- The operands of an instruction are what reading them one by one gives. -/
theorem mapM_read_written (k : Known) (x : Instruction Operand) :
    (x.written.mapM read).run k = pure ((k.instruction x).1.written, (k.instruction x).2) := by
  rw [mapM_read, instruction, Instruction.written_map]

/-! ## What has been noted -/

/-- What is known comes of these uses of local names and these mentions of globals. A property of
names that no bound name has is found first where it is found first among all uses. -/
structure Noted (k : Known) (uses : List Token) (mentions : List String) : Prop where
  globals : k.globals = mentions.eraseDups
  few : k.awaited.length ≤ uses.length
  first : ∀ p : String → Bool, (∀ name, (k.values name).isSome → p name = false) →
    k.awaited.find? (fun t => p t.text) = uses.find? fun t => p t.text

variable {uses : List Token} {mentions : List String}

theorem Noted.localName (noted : k.Noted uses mentions) (t : Token) :
    (k.note (.localName t)).Noted (uses ++ [t]) mentions := by
  by_cases already : (k.values t.text).isSome ∨ t.text ∈ k.awaited.map Token.text
  · rw [note, if_pos already]
    refine ⟨noted.globals, ?_, fun p unbound => ?_⟩
    · rw [List.length_append]
      exact Nat.le_add_right_of_le noted.few
    · rw [List.find?_append, ← noted.first p unbound]
      rcases already with bound | awaited
      · simp [unbound t.text bound]
      · -- an earlier use of the name is found instead
        obtain ⟨u, mem, same⟩ := List.mem_map.mp awaited
        cases found : k.awaited.find? fun t => p t.text with
        | some v => rfl
        | none =>
          have absent := List.find?_eq_none.mp found u mem
          rw [same] at absent
          simp [absent]
  · rw [note, if_neg already]
    refine ⟨noted.globals, ?_, fun p unbound => ?_⟩
    · rw [List.length_append, List.length_append]
      exact Nat.add_le_add_right noted.few 1
    · rw [List.find?_append, List.find?_append, ← noted.first p unbound]

theorem Noted.globalName (noted : k.Noted uses mentions) (name : String) :
    (k.note (.globalName name)).Noted uses (mentions ++ [name]) := by
  have mem_globals : name ∈ k.globals ↔ name ∈ mentions := by
    rw [noted.globals, List.mem_eraseDups]
  by_cases already : name ∈ k.globals
  · rw [note, if_pos already]
    refine ⟨?_, noted.few, noted.first⟩
    rw [List.eraseDups_append, noted.globals]
    simp [List.removeAll, mem_globals.mp already]
  · rw [note, if_neg already]
    refine ⟨?_, noted.few, noted.first⟩
    have new : name ∉ mentions := fun mem => already (mem_globals.mpr mem)
    rw [List.eraseDups_append, ← noted.globals]
    simp [List.removeAll, new, List.eraseDups_cons]

theorem Noted.notes (noted : k.Noted uses mentions) (os : List Operand) :
    (os.foldl note k).Noted (uses ++ os.filterMap Operand.localToken?)
      (mentions ++ os.filterMap Operand.globalName?) := by
  induction os generalizing k uses mentions with
  | nil => simpa using noted
  | cons o os ih =>
    cases o with
    | localName t =>
      show (os.foldl note (k.note (.localName t))).Noted
        (uses ++ t :: os.filterMap Operand.localToken?) _
      rw [List.append_cons]
      exact ih (noted.localName t)
    | globalName name =>
      show (os.foldl note (k.note (.globalName name))).Noted _
        (mentions ++ name :: os.filterMap Operand.globalName?)
      rw [List.append_cons]
      exact ih (noted.globalName name)
    | constant c => exact ih noted

/-- Binding a name leaves fewer properties to be looked for. -/
theorem Noted.bind (noted : k.Noted uses mentions) (name : Option String) (v : Value) :
    (k.bind name v).Noted uses mentions := by
  cases name with
  | none => exact noted
  | some name =>
    refine ⟨noted.globals, noted.few, fun p unbound => noted.first p fun other bound => ?_⟩
    refine unbound other ?_
    by_cases same : other = name
    · simp [Known.bind, same]
    · simpa [Known.bind, same] using bound

theorem extends_bind {name : Option String} (new : ∀ n ∈ name, k.values n = none) (v : Value) :
    k.Extends (k.bind name v) := by
  cases name with
  | none => exact .refl k
  | some name =>
    refine ⟨fun other w bound => ?_, List.prefix_refl _, List.prefix_refl _⟩
    have differ : other ≠ name := by
      rintro rfl
      rw [new other rfl] at bound
      cases bound
    show Function.update k.values name (some v) other = some w
    rw [Function.update_of_ne differ, bound]

/-- What takes the place of the placeholders. -/
def replacements (k : Known) : List Value :=
  k.awaited.map fun t => (k.values t.text).getD (k.placeholder t.text)

/-- Awaited names have bindings unless one of them is not bound, and the first of these is told. -/
theorem bindings_eq (k : Known) : k.bindings =
    match k.awaited.find? fun t => (k.values t.text).isNone with
    | some t => .error t
    | none => .ok k.replacements := by
  unfold bindings replacements
  generalize k.awaited = awaited
  induction awaited with
  | nil => rfl
  | cons t awaited ih =>
    rw [List.mapM_cons, ih]
    cases bound : k.values t.text with
    | none => simp [bound, Bind.bind, Except.bind]
    | some v =>
      cases found : awaited.find? fun t => (k.values t.text).isNone <;>
        simp [bound, found, Bind.bind, Except.bind, pure, Except.pure]

end Known

/-! ## Bindings -/

/-- What a name is bound to by arguments and results. -/
def binding? (arguments : List String) (results : List (Option String)) (name : String) :
    Option Value :=
  if name ∈ arguments then some (.argument (arguments.idxOf name))
  else if results.contains (some name) then some (.inst (results.idxOf (some name)))
  else none

section Bindings

variable {arguments : List String} {results : List (Option String)} {name : String}

theorem binding?_start (distinct : arguments.Nodup) :
    (Intake.start arguments).known.values = binding? arguments [] := by
  rw [Intake.start]
  induction arguments using List.reverseRecOn with
  | nil => rfl
  | append_singleton arguments last ih =>
    obtain ⟨distinctRest, -, apart⟩ := List.nodup_append.mp distinct
    have new : last ∉ arguments := fun mem => apart _ mem _ (List.mem_singleton_self last) rfl
    funext name
    simp only [List.zipIdx_append, List.foldl_append] at ih ⊢
    rw [ih distinctRest]
    by_cases same : name = last
    · subst same
      simp [binding?, List.idxOf_append, new]
    · by_cases known : name ∈ arguments <;> simp [binding?, List.idxOf_append, known, same]

/-- One more result is bound to the next place. -/
theorem binding?_append {k : Known} (same : k.values = binding? arguments results)
    {result : Option String} (new : ∀ n ∈ result, k.values n = none) :
    (k.bind result (.inst results.length)).values = binding? arguments (results ++ [result]) := by
  funext other
  cases result with
  | none =>
    show k.values other = _
    rw [same]
    by_cases known : some other ∈ results <;> simp [binding?, List.idxOf_append, known]
  | some name =>
    show Function.update k.values name (some (.inst results.length)) other = _
    have free : name ∉ arguments ∧ some name ∉ results := by
      have unbound := new name rfl
      rw [same, binding?] at unbound
      split at unbound
      · cases unbound
      · next noArgument =>
        split at unbound
        · cases unbound
        · next noResult => exact ⟨noArgument, fun mem => noResult (List.contains_iff_mem.mpr mem)⟩
    by_cases here : other = name
    · subst here
      simp [binding?, List.idxOf_append, free]
    · rw [Function.update_of_ne here, same]
      by_cases known : some other ∈ results <;> simp [binding?, List.idxOf_append, known, here]

theorem binding?_of_unknown (unknown : name ∉ arguments ++ results.reduceOption) :
    binding? arguments results name = none := by
  have apart : name ∉ arguments ∧ some name ∉ results := by
    simpa [List.reduceOption_mem_iff] using unknown
  rw [binding?, if_neg apart.1, if_neg (mt List.contains_iff_mem.mp apart.2)]

/-- A scope binds the names it defines. -/
theorem Scope.defines_iff_binding? (s : Scope) (name : String) :
    s.defines name = (binding? s.arguments s.results name).isSome := by
  unfold defines binding?
  by_cases argument : name ∈ s.arguments
  · simp [argument]
  · by_cases result : some name ∈ s.results <;> simp [argument, result]

theorem Scope.value_of_binding? {s : Scope} {t : Token} {v : Value}
    (bound : binding? s.arguments s.results t.text = some v) : s.value (.localName t) = v := by
  unfold binding? at bound
  unfold value
  split at bound
  · next argument =>
    cases bound
    exact if_pos argument
  · next noArgument =>
    split at bound
    · cases bound
      exact if_neg noArgument
    · cases bound

end Bindings

/-! ## Statements -/

/-- The definition comes of the statement, each operand being read as something it stands for. -/
def Known.Defines (k : Known) (x : Statement) (d : Definition) : Prop :=
  d.name = x.resultName ∧ ∃ g, d.instruction = x.instruction.map g ∧
    ∀ o ∈ x.instruction.operands, k.Stands o (g o)

theorem Known.Defines.mono {k after : Known} {x : Statement} {d : Definition}
    (defines : k.Defines x d) (grows : k.Extends after) : after.Defines x d := by
  obtain ⟨name, g, same, stands⟩ := defines
  exact ⟨name, g, same, fun o mem => (stands o mem).mono grows⟩

/-- What has been read comes of these statements. -/
structure Intake.Follows (arguments : List String) (done : List Statement) (s : Intake) : Prop where
  noted : s.known.Noted
    ((done.flatMap fun x => x.instruction.written).filterMap Operand.localToken?)
    ((done.flatMap fun x => x.instruction.written).filterMap Operand.globalName?)
  values : s.known.values = binding? arguments (done.map Statement.resultName)
  definitions : List.Forall₂ s.known.Defines done s.definitions

theorem Intake.follows_start {arguments : List String} (distinct : arguments.Nodup) :
    (start arguments).Follows arguments [] where
  noted := ⟨rfl, Nat.le_refl 0, fun _ _ => rfl⟩
  values := binding?_start distinct
  definitions := .nil

/-- One more statement, whose name is new. -/
theorem Intake.Follows.statement {arguments : List String} {done : List Statement} {s : Intake}
    (follows : s.Follows arguments done) {x : Statement}
    (distinct : (arguments ++ ((done ++ [x]).map Statement.resultName).reduceOption).Nodup) :
    (s.statement x).Follows arguments (done ++ [x]) := by
  let after := x.instruction.written.foldl Known.note s.known
  have values : after.values = binding? arguments (done.map Statement.resultName) :=
    (Known.values_notes _ _).trans follows.values
  have new : ∀ name ∈ x.resultName, after.values name = none := by
    intro name named
    rw [values]
    refine binding?_of_unknown fun known => ?_
    rw [List.map_append, List.map_singleton, named, List.reduceOption_append,
      List.reduceOption_singleton, ← List.append_assoc] at distinct
    exact (List.nodup_append.mp distinct).2.2 name known name (by simp) rfl
  have noted : after.Noted
      (((done ++ [x]).flatMap fun x => x.instruction.written).filterMap Operand.localToken?)
      (((done ++ [x]).flatMap fun x => x.instruction.written).filterMap Operand.globalName?) := by
    simpa using follows.noted.notes x.instruction.written
  have defines : after.Defines x ⟨x.instruction.map after.image, x.resultName⟩ := by
    refine ⟨rfl, after.image, rfl, fun o mem => Known.Knows.stands ?_⟩
    exact Known.knows_notes _ (x.instruction.written_perm.mem_iff.mpr mem)
  have earlier : List.Forall₂ after.Defines done s.definitions :=
    follows.definitions.imp fun _ _ defines => defines.mono (Known.extends_notes _ _)
  have grows := Known.extends_bind new (.inst s.definitions.length)
  refine ⟨noted.bind _ _, ?_, ?_⟩
  · rw [List.map_append, List.map_singleton, ← binding?_append values new, List.length_map,
      follows.definitions.length_eq]
    rfl
  · exact (List.rel_append earlier (.cons defines .nil)).imp fun _ _ defines => defines.mono grows

/-- Statements up to the end of a body. -/
theorem Intake.Follows.statements {arguments : List String} {done : List Statement} {s : Intake}
    (follows : s.Follows arguments done) (more : List Statement)
    (distinct : (arguments ++ ((done ++ more).map Statement.resultName).reduceOption).Nodup) :
    (more.foldl Intake.statement s).Follows arguments (done ++ more) := by
  induction more generalizing done s with
  | nil =>
    rw [List.append_nil]
    exact follows
  | cons x more ih =>
    rw [List.append_cons] at distinct ⊢
    refine ih (follows.statement (distinct.sublist ?_)) distinct
    exact (((List.sublist_append_left (done ++ [x]) more).map _).filterMap id).append_left _

/-! ## The end of a body -/

section Settled

variable {k : Known} {s : Scope} {o : Operand} {v : Value}

/-- An instruction of the body is no placeholder. -/
theorem settled_of_bound {name : String} (bound : binding? s.arguments s.results name = some v)
    {bindings : List Value} (few : s.results.length + bindings.length ≤ largestIndex + 1) :
    Intake.settled bindings v = v := by
  unfold binding? at bound
  split at bound
  · cases bound
    rfl
  · split at bound
    · next result =>
      cases bound
      have inside := List.idxOf_lt_length_of_mem (List.contains_iff_mem.mp result)
      have outside : bindings[largestIndex - s.results.idxOf (some name)]? = none := by
        refine List.getElem?_eq_none ?_
        omega
      rw [Intake.settled, outside]
      rfl
    · cases bound

/-- What an operand was read as becomes what it stands for in the whole draft. -/
theorem settled_of_stands (same : k.values = binding? s.arguments s.results)
    (globals : k.globals = s.globals)
    (few : s.results.length + k.awaited.length ≤ largestIndex + 1)
    (bound : ∀ t ∈ k.awaited, (k.values t.text).isSome) (stands : k.Stands o v) :
    Intake.settled k.replacements v = s.value o := by
  cases o with
  | localName t =>
    rcases stands with here | ⟨awaited, rfl⟩
    · rw [same] at here
      rw [Scope.value_of_binding? here]
      exact settled_of_bound here (by rw [Known.replacements, List.length_map]; exact few)
    · have slot := List.idxOf_lt_length_of_mem awaited
      have inside : (k.awaited.map Token.text).idxOf t.text < k.awaited.length := by
        simpa using slot
      have place : largestIndex - (largestIndex - (k.awaited.map Token.text).idxOf t.text) =
          (k.awaited.map Token.text).idxOf t.text := by omega
      have text := List.getElem_idxOf slot
      rw [List.getElem_map] at text
      obtain ⟨w, isBound⟩ := Option.isSome_iff_exists.mp (bound _ (List.getElem_mem inside))
      rw [Known.placeholder, Intake.settled, place, Known.replacements, List.getElem?_map,
        List.getElem?_eq_getElem inside, Option.map_some, isBound]
      rw [text, same] at isBound
      exact (Scope.value_of_binding? isBound).symm
  | globalName name =>
    obtain ⟨-, rfl⟩ := stands
    rw [globals]
    rfl
  | constant c =>
    rw [show v = .const c from stands]
    rfl

theorem settle_of_defines (same : k.values = binding? s.arguments s.results)
    (globals : k.globals = s.globals)
    (few : s.results.length + k.awaited.length ≤ largestIndex + 1)
    (bound : ∀ t ∈ k.awaited, (k.values t.text).isSome) {x : Statement} {d : Definition}
    (defines : k.Defines x d) : Intake.settle k.replacements d = s.definition x := by
  obtain ⟨name, g, read, stands⟩ := defines
  have instruction : (d.instruction.relocate (Intake.settled k.replacements)).instruction =
      x.instruction.map s.value := by
    rw [Instruction.relocate_eq, read]
    refine (Instruction.map_map _ _ _).trans (Instruction.map_congr fun o mem => ?_)
    exact settled_of_stands same globals few bound (stands o mem)
  rw [Intake.settle, instruction, name]
  rfl

end Settled

/-- **Placeholders give the function of the draft**, and the same error: the first use of a name
that is nowhere bound. -/
theorem Draft.readAtOnce_eq {d : Draft}
    (distinct : (d.arguments ++ d.resultNames.reduceOption).Nodup)
    (few : d.statements.length + d.localUses.length ≤ largestIndex + 1) :
    d.readAtOnce =
      match d.undefinedUse? with
      | some t => .error t
      | none => .ok (d.toFunc.definitions, d.toFunc.globals) := by
  have follows := (Intake.follows_start (List.nodup_append.mp distinct).1).statements d.statements
    (by rw [List.nil_append]; exact distinct)
  rw [List.nil_append] at follows
  rw [readAtOnce]
  generalize d.statements.foldl Intake.statement (.start d.arguments) = s at follows
  have values : s.known.values = binding? d.scope.arguments d.scope.results := follows.values
  have globals : s.known.globals = d.scope.globals := follows.noted.globals
  have first :
      s.known.awaited.find? (fun t => (s.known.values t.text).isNone) = d.undefinedUse? := by
    rw [follows.noted.first (fun name => (s.known.values name).isNone) fun name bound => by
      simpa using bound]
    refine congrArg (List.find? · d.localUses) (funext fun t => ?_)
    rw [Scope.defines_iff_binding?, ← values, Option.not_isSome]
  simp only [Intake.finish, Known.bindings_eq, first]
  cases unbound : d.undefinedUse? with
  | some t => rfl
  | none =>
    rw [unbound] at first
    have bound : ∀ t ∈ s.known.awaited, (s.known.values t.text).isSome := by
      simpa [List.find?_eq_none, Option.isSome_iff_ne_none] using first
    have fits : d.scope.results.length + s.known.awaited.length ≤ largestIndex + 1 := by
      have length : d.scope.results.length = d.statements.length := List.length_map _
      exact Nat.le_trans (Nat.add_le_add (Nat.le_of_eq length) follows.noted.few) few
    have definitions : s.definitions.map (Intake.settle s.known.replacements) =
        d.statements.map d.scope.definition := by
      rw [← List.forall₂_eq_eq_eq, List.forall₂_map_left_iff, List.forall₂_map_right_iff]
      exact (follows.definitions.imp fun _ _ defines =>
        settle_of_defines values globals fits bound defines).flip
    simp only [definitions, globals]
    rfl

/-! ## Functions -/

/-- A body that is read has a token for each of its lines and for each use of a local name. -/
theorem Remainder.size_le {labels : List String} {ls : List (Phrase.Line Operand)}
    {ps : List (Phrase.Paragraph Operand)} {ts : List Token}
    (remainder : Remainder Operand.Reads labels ls ps ts) :
    (ls ++ ps.flatMap Phrase.Paragraph.lines).length +
      (((ls ++ ps.flatMap Phrase.Paragraph.lines).flatMap fun l => l.instruction.written).filterMap
        Operand.localToken?).length ≤ ts.length := by
  induction remainder with
  | close brace => exact Nat.zero_le 1
  | label isLabel isColon rest ih =>
    rw [List.nil_append, List.flatMap_cons]
    exact Nat.le_trans ih (Nat.le_add_right _ 2)
  | @line l ls ps us vs isLine rest ih =>
    obtain ⟨_, ⟨front, -, _, ⟨word, -, rfl⟩, rfl⟩, behind, isTail, rfl⟩ := isLine
    have uses : (l.instruction.written.filterMap Operand.localToken?).length ≤ behind.length := by
      rw [← localNames_of_mem_tail isTail]
      exact List.length_filter_le _ behind
    simp only [List.cons_append, List.flatMap_cons, List.filterMap_append, List.length_append,
      List.length_cons, List.length_nil] at ih ⊢
    omega

/-- A function that is read in one go: its definitions and its globals. -/
def functionAtOnce : Parser (List Definition × List String) := do
  let (name, arguments) ← functionHead
  match firstRepeated? [] arguments with
  | some t => failAt t (.redefinition t.text)
  | none =>
    let labels := labelTokens (← get)
    match firstRepeated? [] labels with
    | some t => failAt t (.duplicateBlock t.text)
    | none =>
      let (_, sections) ← body (labels.map Token.text) (arguments.map Token.text) false
      match Draft.readAtOnce ⟨name.text, arguments.map Token.text, sections⟩ with
      | .error t => failAt t (.undefinedValue t.text)
      | .ok found => pure found

/-- The draft of a body that is read fits the indices if the tokens of the body do. -/
theorem Draft.readAtOnce_eq_of_body {d : Draft} {labels : List String} {statements : List Statement}
    {rest after : List Token} (distinctLabels : labels.Nodup) (distinct : d.arguments.Nodup)
    (read : body labels d.arguments false rest = .ok ((statements, d.sections), after))
    (few : rest.length ≤ largestIndex + 1) :
    d.readAtOnce =
      match d.undefinedUse? with
      | some t => .error t
      | none => .ok (d.toFunc.definitions, d.toFunc.globals) := by
  obtain ⟨⟨ts, remainder, rfl⟩, named, noStatements⟩ := sound_body distinctLabels read distinct
  obtain rfl := noStatements rfl
  have lines : (d.sections.map Section.paragraph).flatMap Phrase.Paragraph.lines =
      d.statements.map Statement.line := by
    rw [List.flatMap_map, statements, List.map_flatMap]
    rfl
  refine readAtOnce_eq ?_ ?_
  · have names := named.distinct
    rw [List.nil_append, List.filterMap_map] at names
    rw [resultNames, List.reduceOption, List.filterMap_map]
    exact names
  · have size := remainder.size_le
    rw [List.map_nil, List.nil_append, lines, List.length_map, List.flatMap_map] at size
    rw [List.length_append] at few
    exact Nat.le_trans size (Nat.le_trans (Nat.le_add_right _ _) few)

/-- **Reading in one go is reading through a draft**, as long as the tokens have indices. -/
theorem functionAtOnce_eq {tokens : List Token} (few : tokens.length ≤ largestIndex + 1) :
    functionAtOnce tokens = ((fun f => (f.definitions, f.globals)) <$> function) tokens := by
  rw [function_eq_bind, map_bind]
  refine congr_bind_right fun (name, arguments) inner readHead => ?_
  obtain ⟨head, -, rfl⟩ := sound_functionHead readHead
  have fits : inner.length ≤ largestIndex + 1 := by
    rw [List.length_append] at few
    exact Nat.le_trans (Nat.le_add_left _ _) few
  unfold functionTail
  dsimp only
  cases repeated : firstRepeated? [] arguments with
  | some t => rfl
  | none =>
    have distinct := (firstRepeated?_eq_none.mp repeated).1
    dsimp only
    rw [map_bind]
    refine congr_bind_right fun _ _ readState => ?_
    cases readState
    cases repeatedLabel : firstRepeated? [] (labelTokens inner) with
    | some t => rfl
    | none =>
      have distinctLabels := (firstRepeated?_eq_none.mp repeatedLabel).1
      dsimp only
      rw [map_bind]
      refine congr_bind_right fun (statements, sections) after readBody => ?_
      dsimp only
      rw [Draft.readAtOnce_eq_of_body (d := ⟨_, _, _⟩) distinctLabels distinct readBody fits]
      cases Draft.undefinedUse? ⟨name.text, arguments.map Token.text, sections⟩ <;> rfl

end BlockReuse.Source
