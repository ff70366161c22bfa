import BlockReuse.Proofs.Bodies
import BlockReuse.Proofs.Expressions

/-!
# Renderings — a source is read as the functions it writes

A function is read as a draft, whose operands are names and literals, and the draft is then turned
into a function. To say that the tokens of a draft write that function is to follow what each name
stands for: an operand is read off a token exactly when the token spells its value
(`Draft.spells_of_reads`), the places of the statements are those of the instructions
(`Draft.paragraphs_toFunc`), and the globals are those that the body mentions
(`Draft.mentions_body`). This gives `sound_function`.

In the other direction the names of a function say what its tokens are read as
(`Func.through_of_spells`). Reading them gives some draft whose operands stand for the values of the
function, and a function has only one such draft up to the tokens it remembers (`Draft.toFunc_eq`).
This gives `complete_function`, and with it that sources are read as the functions they write and in
no other case.
-/

set_option autoImplicit false

namespace BlockReuse

open Source

/-! ## Lines by their places -/

namespace Func

/-- Places in a row hold the definitions in a row. -/
theorem filterMap_range' {α β : Type} (g : α → β) (first middle last : List α) :
    (List.range' first.length middle.length).filterMap
      (fun index => (first ++ middle ++ last)[index]?.map g) = middle.map g := by
  induction middle generalizing first with
  | nil => rfl
  | cons a middle ih =>
    have here : (first ++ a :: middle ++ last)[first.length]? = some a := by simp
    have rest := ih (first ++ [a])
    simp only [List.length_append, List.length_singleton, List.append_assoc, List.cons_append,
      List.nil_append] at rest here ⊢
    rw [List.length_cons, List.range'_succ, List.filterMap_cons, here, Option.map_some, rest,
      List.map_cons]

theorem lines_paragraphs {f : Func}
    (inOrder : f.blocks.flatMap Block.members = List.range f.definitions.length) :
    f.paragraphs.flatMap Phrase.Paragraph.lines = f.definitions.map Definition.line := by
  have places := filterMap_range' Definition.line [] f.definitions []
  rw [List.nil_append, List.append_nil, List.length_nil, ← List.range_eq_range', ← inOrder]
    at places
  rw [← places, List.filterMap_flatMap, paragraphs, List.flatMap_map]
  rfl

end Func

/-! ## What a draft writes -/

namespace Source.Draft

variable (d : Draft)

theorem labels_toFunc : d.toFunc.labels = d.sections.map Section.label := by
  have layout_labels (first : Nat) (sections : List Section) :
      (layout first sections).map Block.label = sections.map Section.label := by
    induction sections generalizing first with
    | nil => rfl
    | cons s rest ih => simp [layout, ih]
  exact layout_labels 0 d.sections

theorem names_toFunc : d.toFunc.names = d.resultNames := by
  simp [Func.names, toFunc, resultNames, Scope.definition]

theorem inOrder_toFunc :
    d.toFunc.blocks.flatMap Block.members = List.range d.toFunc.definitions.length := by
  simp only [toFunc, List.length_map, List.range_eq_range']
  exact layout_members 0 d.sections

theorem paragraphs_toFunc :
    d.toFunc.paragraphs = d.sections.map fun s => s.paragraph.map d.scope.value := by
  have layout_paragraphs (before : List Statement) (sections : List Section)
      (whole : before ++ sections.flatMap Section.statements = d.statements) :
      (layout before.length sections).map (fun b => ⟨b.label, d.toFunc.linesAt b.members⟩) =
        sections.map fun s => s.paragraph.map d.scope.value := by
    induction sections generalizing before with
    | nil => rfl
    | cons s rest ih =>
      have next := ih (before ++ s.statements) (by simpa using whole)
      have here := Func.filterMap_range' (fun s => s.line.map d.scope.value) before s.statements
        (rest.flatMap Section.statements)
      have lines : d.toFunc.linesAt (List.range' before.length s.statements.length) =
          s.statements.map fun s => s.line.map d.scope.value := by
        rw [← here, List.append_assoc, ← List.flatMap_cons, whole]
        simp only [Func.linesAt, toFunc, List.getElem?_map, Option.map_map]
        rfl
      rw [List.length_append] at next
      simp only [layout, List.map_cons, next, lines]
      simp [Section.paragraph, Phrase.Paragraph.map]
  exact layout_paragraphs [] d.sections rfl

/-- Blocks that hold places in a row are laid out as the sections with as many statements. -/
theorem layout_eq {blocks : List Block} {sections : List Section} {first : Nat}
    (inOrder : blocks.flatMap Block.members =
      List.range' first (blocks.flatMap Block.members).length)
    (same : blocks.map (fun b => (b.label, b.members.length)) =
      sections.map fun s => (s.label, s.statements.length)) :
    layout first sections = blocks := by
  induction sections generalizing blocks first with
  | nil =>
    cases blocks with
    | nil => rfl
    | cons b blocks => cases same
  | cons s rest ih =>
    cases blocks with
    | nil => cases same
    | cons b blocks =>
      simp only [List.map_cons, List.cons.injEq, Prod.mk.injEq] at same
      obtain ⟨⟨label, length⟩, same⟩ := same
      rw [List.flatMap_cons, List.length_append, ← List.range'_append_1] at inOrder
      obtain ⟨members, inOrder⟩ := List.append_inj inOrder (by simp)
      rw [layout, ← label, ← length, ← members, ih inOrder same]

end Source.Draft

/-! ## What names stand for -/

attribute [ext] Func

theorem getElem?_idxOf {α : Type} [BEq α] [LawfulBEq α] {a : α} {as : List α} (mem : a ∈ as) :
    as[as.idxOf a]? = some a := by
  rw [List.getElem?_eq_getElem (List.idxOf_lt_length_of_mem mem), List.getElem_idxOf]

theorem nodup_eraseDups {α : Type} [BEq α] [LawfulBEq α] : (as : List α) → as.eraseDups.Nodup
  | [] => by simp
  | a :: as => by
    rw [List.eraseDups_cons, List.nodup_cons]
    exact ⟨by simp [List.mem_eraseDups], nodup_eraseDups (as.filter fun b => !b == a)⟩
  termination_by as => as.length
  decreasing_by exact Nat.lt_succ_of_le (List.length_filter_le _ _)

theorem idxOf_some_eq {names : List (Option String)} (distinct : names.reduceOption.Nodup) {i : Nat}
    {name : String} (found : names[i]? = some (some name)) : names.idxOf (some name) = i := by
  induction names generalizing i with
  | nil => simp at found
  | cons first names ih =>
    cases i with
    | zero =>
      obtain rfl : first = some name := by simpa using found
      simp
    | succ i =>
      have later : names[i]? = some (some name) := by simpa using found
      have mem : name ∈ names.reduceOption :=
        List.reduceOption_mem_iff.mpr (List.mem_of_getElem? later)
      cases first with
      | none =>
        rw [List.idxOf_cons_ne _ (by simp), ih (by simpa using distinct) later]
      | some other =>
        rw [List.reduceOption_cons_of_some, List.nodup_cons] at distinct
        have differ : some other ≠ some name := by
          rintro ⟨⟩
          exact distinct.1 mem
        rw [List.idxOf_cons_ne _ differ, ih distinct.2 later]

/-- What an operand stands for, if it stands for something. -/
def Source.Scope.find? (s : Scope) (o : Operand) : Option Value :=
  match o with
  | .localName t => if s.defines t.text then some (s.value o) else none
  | _ => some (s.value o)

/-- A token that spells a value is read as an operand that stands for it. -/
theorem Func.through_of_spells {f : Func}
    (distinctNames : (f.arguments ++ f.names.reduceOption).Nodup)
    (distinctGlobals : f.globals.Nodup) {v : Value} {t : Token} (spelled : f.Spells v t) :
    Through (Scope.find? ⟨f.arguments, f.names, f.globals⟩) (some v) t := by
  obtain ⟨distinctArguments, distinctResults, apart⟩ := List.nodup_append'.mp distinctNames
  cases v with
  | argument index =>
    obtain ⟨class_, found⟩ := spelled
    have mem := List.mem_of_getElem? found
    obtain ⟨inRange, found⟩ := List.getElem?_eq_some_iff.mp found
    refine ⟨.localName t, by simp [Operand.Reads, Operand.ofToken, class_], ?_⟩
    have place : f.arguments.idxOf t.text = index := by
      rw [← found, distinctArguments.idxOf_getElem]
    simp [Scope.find?, Scope.defines, Scope.value, mem, place]
  | inst index =>
    obtain ⟨class_, found⟩ := spelled
    rw [resultName?_eq_join, Option.join_eq_some_iff] at found
    have mem := List.mem_of_getElem? found
    have unbound : t.text ∉ f.arguments := fun bound =>
      apart bound (List.reduceOption_mem_iff.mpr mem)
    refine ⟨.localName t, by simp [Operand.Reads, Operand.ofToken, class_], ?_⟩
    simp [Scope.find?, Scope.defines, Scope.value, mem, unbound,
      idxOf_some_eq distinctResults found]
  | global index =>
    obtain ⟨class_, found⟩ := spelled
    obtain ⟨inRange, found⟩ := List.getElem?_eq_some_iff.mp found
    have place : f.globals.idxOf t.text = index := by
      rw [← found, distinctGlobals.idxOf_getElem]
    refine ⟨.globalName t.text, by simp [Operand.Reads, Operand.ofToken, class_], ?_⟩
    simp [Scope.find?, Scope.value, place]
  | const value =>
    obtain ⟨class_, literal⟩ := spelled
    rw [← Text.word?_eq_some] at literal
    exact ⟨.constant value, by simp [Operand.Reads, Operand.ofToken, class_, literal], rfl⟩

/-- The tokens of a body that name globals are operands. -/
theorem Source.Phrase.picks_globalNames {ν : Type} {spells : ν → Token → Prop}
    {found : ν → Option String} (operand : ∀ v t, spells v t → t.globalName? = found v)
    (labels : List String) (ps : List (Phrase.Paragraph ν)) :
    Phrase.Picks Token.globalName? (Phrase.paragraphs spells labels ps)
      (ps.flatMap fun p => p.lines.flatMap fun l => l.instruction.written.filterMap found) := by
  have other {t : Token} {kind : TokenKind} (class_ : t.kind = kind)
      (other : kind ≠ .globalName) : t.globalName? = none := by
    rw [Token.globalName?, if_neg (class_ ▸ other)]
  have frame (t : Token) (frame : t.kind.isFrame = true) : t.globalName? = none := by
    refine other rfl fun class_ => ?_
    simp [class_, TokenKind.isFrame] at frame
  refine Phrase.picks_paragraphs frame operand ?_
    (fun t class_ => other class_ (by decide)) labels ps
  rintro t (class_ | class_)
  · exact other class_ (by decide)
  · exact other class_ (by decide)

namespace Source.Draft

variable {d : Draft}

theorem mem_localUses {t : Token} : t ∈ d.localUses ↔ .localName t ∈ d.operands := by
  rw [localUses, List.mem_filterMap]
  constructor
  · rintro ⟨o, mem, found⟩
    cases o <;> cases found
    exact mem
  · intro mem
    exact ⟨_, mem, rfl⟩

theorem mem_globals {name : String} (mem : .globalName name ∈ d.operands) : name ∈ d.globals :=
  List.mem_eraseDups.mpr (List.mem_filterMap.mpr ⟨_, mem, rfl⟩)

theorem undefinedUse?_eq_none :
    d.undefinedUse? = none ↔ ∀ t, .localName t ∈ d.operands → d.scope.defines t.text = true := by
  simp [undefinedUse?, Scope.firstUndefined?, List.find?_eq_none, mem_localUses]

/-- Where all names are defined, the token of an operand spells what it stands for. -/
theorem spells_of_reads (defined : d.undefinedUse? = none) {o : Operand} (mem : o ∈ d.operands)
    {t : Token} (read : o.Reads t) : d.toFunc.Spells (d.scope.value o) t := by
  unfold Operand.Reads Operand.ofToken at read
  split at read
  · next class_ =>
    cases read
    have known := undefinedUse?_eq_none.mp defined t mem
    by_cases argument : t.text ∈ d.arguments
    · simp only [Scope.value, scope, argument, if_true]
      exact ⟨class_, getElem?_idxOf argument⟩
    · have result : some t.text ∈ d.resultNames := by
        simpa [Scope.defines, scope, argument] using known
      simp only [Scope.value, scope, argument, if_false]
      refine ⟨class_, ?_⟩
      rw [Func.resultName?_eq_join, names_toFunc, getElem?_idxOf result]
      rfl
  · next class_ =>
    cases read
    exact ⟨class_, getElem?_idxOf (mem_globals mem)⟩
  · next class_ =>
    split at read
    · next literal =>
      cases read
      exact ⟨class_, Text.word?_eq_some.mp literal⟩
    · cases read
  · cases read

theorem globalName?_of_reads {o : Operand} {t : Token} (read : o.Reads t) :
    t.globalName? = o.globalName? := by
  unfold Operand.Reads Operand.ofToken at read
  split at read
  · next class_ =>
    cases read
    simp [Token.globalName?, class_, Operand.globalName?]
  · next class_ =>
    cases read
    simp [Token.globalName?, class_, Operand.globalName?]
  · next class_ =>
    split at read
    · cases read
      simp [Token.globalName?, class_, Operand.globalName?]
    · cases read
  · cases read

/-- The globals that the tokens of a body mention are those of its operands. -/
theorem mentions_body {labels : List String} {ts : List Token}
    (mem : ts ∈ Phrase.paragraphs Operand.Reads labels (d.sections.map Section.paragraph)) :
    (ts.filterMap Token.globalName?).eraseDups = d.globals := by
  have found := Phrase.picks_globalNames (fun o t read => globalName?_of_reads read) labels
    (d.sections.map Section.paragraph) ts mem
  have written : d.operands.filterMap Operand.globalName? = d.sections.flatMap fun s =>
      s.statements.flatMap fun x => x.instruction.written.filterMap Operand.globalName? := by
    rw [operands, statements, List.filterMap_flatMap, List.flatMap_assoc]
  rw [found, globals, written, List.flatMap_map]
  simp only [Section.paragraph, List.flatMap_map]
  rfl

end Source.Draft

/-! ## The draft of a function -/

namespace Source

theorem Scope.value_of_find? {s : Scope} {o : Operand} {v : Value} (found : s.find? o = some v) :
    s.value o = v := by
  unfold find? at found
  split at found
  · split at found <;> cases found
    rfl
  · cases found
    rfl

theorem Scope.defines_of_find? {s : Scope} {t : Token} {v : Value}
    (found : s.find? (.localName t) = some v) : s.defines t.text = true := by
  by_contra unknown
  simp [find?, unknown] at found

/-- A statement whose operands stand for those of a definition makes that definition. -/
theorem Scope.definition_of_line {s : Scope} {x : Statement} {d : Definition}
    (same : x.line.map s.find? = d.line.map some) :
    s.definition x = d ∧ ∀ o ∈ x.instruction.operands, ∃ v, s.find? o = some v := by
  have name : x.resultName = d.name := congrArg Phrase.Line.name same
  have instruction : x.instruction.map s.find? = d.instruction.map some :=
    congrArg Phrase.Line.instruction same
  have known : ∀ o ∈ x.instruction.operands, ∃ v, s.find? o = some v := by
    intro o mem
    have found := List.mem_map_of_mem (f := s.find?) mem
    rw [← Instruction.operands_map, instruction, Instruction.operands_map] at found
    obtain ⟨v, -, isV⟩ := List.mem_map.mp found
    exact ⟨v, isV.symm⟩
  refine ⟨?_, known⟩
  have mapped : x.instruction.map s.value = d.instruction := by
    calc x.instruction.map s.value
        = (x.instruction.map s.find?).map (·.getD default) := by
          rw [Instruction.map_map]
          refine Instruction.map_congr fun o mem => ?_
          obtain ⟨v, found⟩ := known o mem
          rw [found, Option.getD_some, Scope.value_of_find? found]
      _ = d.instruction := by
          rw [instruction, Instruction.map_map]
          exact Instruction.map_id d.instruction
  rw [Scope.definition, mapped, name]

end Source

theorem map_eq_of_map_eq {α β γ : Type} {g : α → γ} {h : β → γ} {k : α → β} {as : List α}
    {bs : List β}
    (same : as.map g = bs.map h) (inverse : ∀ a b, g a = h b → k a = b) : as.map k = bs := by
  induction as generalizing bs with
  | nil => simpa using same
  | cons a as ih =>
    cases bs with
    | nil => cases same
    | cons b bs =>
      rw [List.map_cons, List.map_cons, List.cons.injEq] at same
      rw [List.map_cons, inverse a b same.1, ih same.2]

theorem Func.length_linesAt {f : Func}
    (inOrder : f.blocks.flatMap Block.members = List.range f.definitions.length) {b : Block}
    (mem : b ∈ f.blocks) : (f.linesAt b.members).length = b.members.length := by
  have inRange : ∀ index ∈ b.members, index < f.definitions.length := by
    intro index inBlock
    rw [← List.mem_range, ← inOrder]
    exact List.mem_flatMap.mpr ⟨b, mem, inBlock⟩
  rw [Func.linesAt, List.length_filterMap_eq_countP, List.countP_eq_length]
  intro index inBlock
  simp [inRange index inBlock]

/-- A draft whose operands stand for the values of a function writes that function. -/
theorem Source.Draft.toFunc_eq {f : Func}
    (inOrder : f.blocks.flatMap Block.members = List.range f.definitions.length)
    {sections : List Section}
    (stands : sections.map (fun s => s.paragraph.map
        (Scope.find? ⟨f.arguments, f.names, f.globals⟩)) =
          f.paragraphs.map (Phrase.Paragraph.map some))
    (sameGlobals : globals ⟨f.name, f.arguments, sections⟩ = f.globals) :
    undefinedUse? ⟨f.name, f.arguments, sections⟩ = none ∧
      toFunc ⟨f.name, f.arguments, sections⟩ = f := by
  set d : Draft := ⟨f.name, f.arguments, sections⟩ with draft
  have sameLines : d.statements.map
      (fun x => x.line.map (Scope.find? ⟨f.arguments, f.names, f.globals⟩)) =
        f.definitions.map fun x => x.line.map some := by
    have lines := congrArg (List.flatMap Phrase.Paragraph.lines) stands
    simp only [List.flatMap_map, Phrase.Paragraph.map, Section.paragraph, List.map_map] at lines
    rw [← List.map_flatMap, ← List.map_flatMap, Func.lines_paragraphs inOrder, List.map_map]
      at lines
    exact lines
  have sameNames : d.resultNames = f.names := by
    have names := congrArg (List.map Phrase.Line.name) sameLines
    rwa [List.map_map, List.map_map] at names
  have sameScope : d.scope = ⟨f.arguments, f.names, f.globals⟩ := by
    rw [Draft.scope, sameNames, sameGlobals]
  rw [← sameScope] at sameLines stands
  have definitions : d.statements.map d.scope.definition = f.definitions :=
    map_eq_of_map_eq sameLines fun x y same => (Scope.definition_of_line same).1
  have known : ∀ x ∈ d.statements, ∀ o ∈ x.instruction.operands, ∃ v, d.scope.find? o = some v := by
    intro x mem
    have line := List.mem_map_of_mem (f := fun x => x.line.map d.scope.find?) mem
    rw [sameLines] at line
    obtain ⟨y, -, same⟩ := List.mem_map.mp line
    exact (Scope.definition_of_line same.symm).2
  constructor
  · rw [Draft.undefinedUse?_eq_none]
    intro t mem
    obtain ⟨x, isStatement, written⟩ := List.mem_flatMap.mp mem
    obtain ⟨v, found⟩ := known x isStatement _ (x.instruction.written_perm.mem_iff.mp written)
    exact Scope.defines_of_find? found
  · refine Func.ext rfl rfl sameGlobals definitions (Draft.layout_eq ?_ ?_)
    · rw [inOrder, List.range_eq_range', List.length_range']
    · have sizes := congrArg (List.map fun p => (p.label, p.lines.length)) stands
      simp only [List.map_map, Function.comp_def, Phrase.Paragraph.map, Section.paragraph,
        List.length_map, Func.paragraphs] at sizes
      rw [sizes]
      exact List.map_congr_left fun b mem => by rw [Func.length_linesAt inOrder mem]

/-! ## Functions -/

namespace Source

open BlockReuse.Source.Parser

variable {rest after : List Token} {f : Func}

theorem firstRepeated?_eq_none {seen : List String} {ts : List Token} :
    firstRepeated? seen ts = none ↔ (ts.map Token.text).Nodup ∧ ∀ t ∈ ts, t.text ∉ seen := by
  induction ts generalizing seen with
  | nil => simp [firstRepeated?]
  | cons t ts ih =>
    rw [firstRepeated?]
    split
    · next known => simp [known]
    · next unknown =>
      rw [ih, List.forall_mem_cons]
      simp only [List.map_cons, List.nodup_cons, List.mem_map, List.mem_cons, not_or, not_exists,
        not_and]
      constructor
      · rintro ⟨distinct, apart⟩
        exact ⟨⟨fun u mem => (apart u mem).1, distinct⟩, unknown, fun u mem => (apart u mem).2⟩
      · rintro ⟨⟨apart, distinct⟩, -, unseen⟩
        exact ⟨distinct, fun u mem => ⟨apart u mem, unseen u mem⟩⟩

/-- The head of a function, up to its opening brace: the function's name and its arguments. -/
def functionHead : Parser (Token × List Token) := do
  keyword "fn"
  let name ← token .globalName "function name"
  let _ ← token .openParen "`(`"
  let arguments ← parenList (token .localName "argument name")
  let _ ← token .openBrace "`\x7b`"
  pure (name, arguments)

/-- A function is read by its head, the labels of its body, its body and what its names stand
for. -/
theorem function_eq_ok :
    function rest = .ok (f, after) ↔
      ∃ (name : Token) (arguments inner : List Token) (statements : List Statement)
        (sections : List Section),
        functionHead rest = .ok ((name, arguments), inner) ∧
        (arguments.map Token.text).Nodup ∧ ((labelTokens inner).map Token.text).Nodup ∧
        body ((labelTokens inner).map Token.text) (arguments.map Token.text) false inner =
          .ok ((statements, sections), after) ∧
        Draft.undefinedUse? ⟨name.text, arguments.map Token.text, sections⟩ = none ∧
        Draft.toFunc ⟨name.text, arguments.map Token.text, sections⟩ = f := by
  have repeated (ts : List Token) : firstRepeated? [] ts = none ↔ (ts.map Token.text).Nodup := by
    simp [firstRepeated?_eq_none]
  constructor
  · intro read
    obtain ⟨_, _, readFn, read⟩ := bind_eq_ok.mp read
    obtain ⟨name, _, readName, read⟩ := bind_eq_ok.mp read
    obtain ⟨_, _, readOpen, read⟩ := bind_eq_ok.mp read
    obtain ⟨arguments, _, readArguments, read⟩ := bind_eq_ok.mp read
    obtain ⟨_, inner, readBrace, read⟩ := bind_eq_ok.mp read
    have readHead : functionHead rest = .ok ((name, arguments), inner) :=
      bind_eq_ok.mpr ⟨_, _, readFn, bind_eq_ok.mpr ⟨_, _, readName, bind_eq_ok.mpr ⟨_, _, readOpen,
        bind_eq_ok.mpr ⟨_, _, readArguments, bind_eq_ok.mpr ⟨_, _, readBrace, rfl⟩⟩⟩⟩⟩
    cases distinct : firstRepeated? [] arguments with
    | some t => simp [distinct, failAt] at read
    | none =>
      simp only [distinct] at read
      obtain ⟨_, _, readState, read⟩ := bind_eq_ok.mp read
      cases readState
      cases distinctLabels : firstRepeated? [] (labelTokens inner) with
      | some t => simp [distinctLabels, failAt] at read
      | none =>
        simp only [distinctLabels] at read
        obtain ⟨⟨statements, sections⟩, _, readBody, read⟩ := bind_eq_ok.mp read
        cases defined : Draft.undefinedUse? ⟨name.text, arguments.map Token.text, sections⟩ with
        | some t => simp [defined, failAt] at read
        | none =>
          simp only [defined] at read
          cases read
          exact ⟨name, arguments, inner, statements, sections, readHead, (repeated _).mp distinct,
            (repeated _).mp distinctLabels, readBody, defined, rfl⟩
  · rintro ⟨name, arguments, inner, statements, sections, readHead, distinct, distinctLabels,
      readBody, defined, rfl⟩
    obtain ⟨_, _, readFn, readHead⟩ := bind_eq_ok.mp readHead
    obtain ⟨_, _, readName, readHead⟩ := bind_eq_ok.mp readHead
    obtain ⟨_, _, readOpen, readHead⟩ := bind_eq_ok.mp readHead
    obtain ⟨_, _, readArguments, readHead⟩ := bind_eq_ok.mp readHead
    obtain ⟨_, _, readBrace, done⟩ := bind_eq_ok.mp readHead
    cases done
    refine bind_eq_ok.mpr ⟨_, _, readFn, bind_eq_ok.mpr ⟨_, _, readName,
      bind_eq_ok.mpr ⟨_, _, readOpen, bind_eq_ok.mpr ⟨_, _, readArguments,
        bind_eq_ok.mpr ⟨_, _, readBrace, ?_⟩⟩⟩⟩⟩
    rw [(repeated _).mpr distinct]
    refine bind_eq_ok.mpr ⟨inner, inner, rfl, ?_⟩
    simp only [(repeated _).mpr distinctLabels]
    refine bind_eq_ok.mpr ⟨(statements, sections), _, readBody, ?_⟩
    simp only [defined]
    rfl

theorem sound_functionHead :
    Sound functionHead fun (name, arguments) =>
      Phrase.head name.text (arguments.map Token.text) := by
  refine (sound_of_eq_ok keyword_eq_ok).bind fun _ isFn => (sound_token _ _).bind fun name isName =>
    (sound_mark _ _).bind fun _ isOpen => (sound_parenList (sound_token _ _)).bind
      fun arguments areArguments => (sound_mark _ _).bind fun _ isBrace => soundAfter_pure ?_
  simp only [Phrase.head, List.map_map, Function.comp_def,
    mul_assoc (_ * _ * _) _ (Phrase.mark .closeParen)]
  exact Language.append_mem_mul (Language.append_mem_mul (Language.append_mem_mul
    (Language.append_mem_mul isFn isName) isOpen) areArguments) isBrace

theorem complete_functionHead :
    Complete functionHead (fun (name, arguments) => (name.text, arguments.map Token.text))
      fun (name, arguments) => Phrase.head name arguments := by
  rintro _ ⟨name, arguments⟩ mem after
  simp only [Phrase.head, mul_assoc (_ * _ * _) _ (Phrase.mark .closeParen)] at mem
  obtain ⟨_, ⟨_, ⟨_, ⟨ts, isFn, us, isName, rfl⟩, vs, isOpen, rfl⟩, ws, areArguments, rfl⟩,
    xs, isBrace, rfl⟩ := mem
  have readFn := @complete_of_eq_ok _ (keyword "fn") _ keyword_eq_ok _ () isFn
  have readArguments := complete_parenList (complete_token .localName "argument name")
    (fun text ts mem => by
      obtain ⟨t, ⟨class_, -⟩, rfl⟩ := mem
      exact ⟨t, [], rfl, by simp [class_]⟩) areArguments
  simp only [List.append_assoc]
  exact (readFn _).bind fun _ _ => (complete_token _ _ isName _).bind fun n forName =>
    (yields_mark isOpen _ _).bind fun _ _ => (readArguments _).bind fun as forArguments =>
      (yields_mark isBrace _ _).bind fun _ _ => yields_pure (Prod.ext forName forArguments)

theorem remainder_nil_iff {ν : Type} {spells : ν → Token → Prop} {labels : List String}
    {ps : List (Phrase.Paragraph ν)} {ts : List Token} :
    Remainder spells labels [] ps ts ↔
      ∃ body close, body ∈ Phrase.paragraphs spells labels ps ∧ close.kind = .closeBrace ∧
        ts = body ++ [close] := by
  rw [remainder_iff, Phrase.lines, List.map_nil, List.prod_nil, one_mul]
  constructor
  · rintro ⟨body, isBody, _, ⟨close, isClose, rfl⟩, rfl⟩
    exact ⟨body, close, isBody, isClose, rfl⟩
  · rintro ⟨body, close, isBody, isClose, rfl⟩
    exact Language.append_mem_mul isBody ⟨close, isClose, rfl⟩

/-- A draft that is written as its sections are, with names where they are needed and all of them
defined, is written as its function is. -/
theorem Draft.renders_toFunc {d : Draft} (defined : d.undefinedUse? = none)
    (distinctLabels : d.toFunc.labels.Nodup)
    (named : Phrase.Named d.arguments (d.statements.map Statement.line)) {body tokens : List Token}
    (isBody : body ∈
      Phrase.paragraphs Operand.Reads d.toFunc.labels (d.sections.map Section.paragraph))
    (whole : tokens ∈ Phrase.function d.name d.arguments {body}) : d.toFunc.Renders tokens := by
  have names : (d.statements.map Statement.line).filterMap Phrase.Line.name =
      d.toFunc.names.reduceOption := by
    rw [names_toFunc, resultNames, List.reduceOption, List.filterMap_map, List.filterMap_map]
    rfl
  have spelled : body ∈ Phrase.paragraphs d.toFunc.Spells d.toFunc.labels d.toFunc.paragraphs := by
    have mapped : d.toFunc.paragraphs =
        (d.sections.map Section.paragraph).map (Phrase.Paragraph.map d.scope.value) := by
      rw [paragraphs_toFunc, List.map_map]
      rfl
    rw [mapped, Phrase.paragraphs_map]
    refine Phrase.paragraphs_mono ?_ isBody
    intro p isParagraph l isLine o isOperand t read
    obtain ⟨s, isSection, rfl⟩ := List.mem_map.mp isParagraph
    obtain ⟨x, isStatement, rfl⟩ := List.mem_map.mp isLine
    have written : o ∈ d.operands := List.mem_flatMap.mpr
      ⟨x, List.mem_flatMap.mpr ⟨s, isSection, isStatement⟩,
        x.instruction.written_perm.mem_iff.mpr isOperand⟩
    exact spells_of_reads defined written read
  refine ⟨d.inOrder_toFunc, names ▸ named.distinct, distinctLabels, ?_, body, spelled, whole,
    mentions_body isBody⟩
  intro x mem
  obtain ⟨statement, isStatement, rfl⟩ := List.mem_map.mp mem
  exact Phrase.Line.wellNamed_map.mpr
    (named.wellNamed _ (List.mem_map_of_mem isStatement))

/-- What is read as a function writes it. -/
theorem sound_function (read : function rest = .ok (f, after)) :
    ∃ ts, f.Renders ts ∧ rest = ts ++ after := by
  obtain ⟨name, arguments, inner, statements, sections, readHead, distinct, distinctLabels,
    readBody, defined, rfl⟩ := function_eq_ok.mp read
  obtain ⟨head, isHead, rfl⟩ := sound_functionHead readHead
  obtain ⟨⟨ts, remainder, rfl⟩, named, noStatements⟩ := sound_body distinctLabels readBody distinct
  obtain rfl := noStatements rfl
  have labels : (labelTokens (ts ++ after)).map Token.text =
      (Draft.toFunc ⟨name.text, arguments.map Token.text, sections⟩).labels := by
    rw [remainder.labelTokens (fun o t read => ⟨o, read⟩) after, Draft.labels_toFunc, List.map_map]
    rfl
  rw [labels] at remainder distinctLabels
  obtain ⟨body, close, isBody, isClose, rfl⟩ := remainder_nil_iff.mp remainder
  refine ⟨head ++ (body ++ [close]), Draft.renders_toFunc defined distinctLabels named isBody ?_,
    by simp⟩
  have isClosed : body ++ [close] ∈ {body} * Phrase.mark .closeBrace :=
    Language.append_mem_mul (Set.mem_singleton body) ⟨close, isClose, rfl⟩
  exact Language.append_mem_mul isHead isClosed

/-- The lines of a function's paragraphs have names where they need them. -/
theorem named_paragraphs {ts : List Token} (renders : f.Renders ts) :
    Phrase.Named f.arguments
      ((f.paragraphs.map (Phrase.Paragraph.map some)).flatMap Phrase.Paragraph.lines) := by
  have lines : (f.paragraphs.map (Phrase.Paragraph.map some)).flatMap Phrase.Paragraph.lines =
      (f.definitions.map Definition.line).map (Phrase.Line.map some) := by
    rw [List.flatMap_map, ← Func.lines_paragraphs renders.inOrder, List.map_flatMap]
    rfl
  have names : ((f.definitions.map Definition.line).map (Phrase.Line.map some)).filterMap
      Phrase.Line.name = f.names.reduceOption := by
    rw [Func.names, List.reduceOption, List.map_map, List.filterMap_map, List.filterMap_map]
    rfl
  rw [lines]
  refine ⟨names ▸ renders.distinctNames, fun l mem => ?_⟩
  obtain ⟨_, isLine, rfl⟩ := List.mem_map.mp mem
  obtain ⟨d, isDefinition, rfl⟩ := List.mem_map.mp isLine
  exact Phrase.Line.wellNamed_map.mpr (renders.wellNamed d isDefinition)

/-- What writes a function is read as it. -/
theorem complete_function {ts : List Token} (renders : f.Renders ts) (after : List Token) :
    function (ts ++ after) = .ok (f, after) := by
  obtain ⟨_, isBody, whole, globals⟩ := renders.written
  obtain ⟨head, isHead, _, ⟨body, rfl, _, ⟨close, isClose, rfl⟩, rfl⟩, rfl⟩ := whole
  have distinctGlobals : f.globals.Nodup := globals ▸ nodup_eraseDups _
  -- The tokens of the body are read through what the names of the function stand for.
  have resolved : body ∈ Phrase.paragraphs (Through (Scope.find? ⟨f.arguments, f.names, f.globals⟩))
      f.labels (f.paragraphs.map (Phrase.Paragraph.map some)) := by
    rw [Phrase.paragraphs_map]
    exact Phrase.paragraphs_mono (fun _ _ _ _ _ _ _ spelled =>
      Func.through_of_spells renders.distinctNames distinctGlobals spelled) isBody
  have remainder := remainder_nil_iff.mpr ⟨body, close, resolved, isClose, rfl⟩
  have labels : (labelTokens (body ++ [close] ++ after)).map Token.text = f.labels := by
    rw [remainder.labelTokens (fun v t through => through.exists_reads) after, List.map_map,
      Func.labels, Func.paragraphs, List.map_map]
    rfl
  obtain ⟨⟨name, arguments⟩, forHead, readHead⟩ :=
    @complete_functionHead _ (f.name, f.arguments) isHead (body ++ [close] ++ after)
  obtain ⟨forName, forArguments⟩ := Prod.mk.inj forHead
  obtain ⟨statements, sections, readBody, forLines, forParagraphs⟩ :=
    remainder.yields _ renders.distinctLabels (named_paragraphs renders) false (by simp) after
  obtain rfl : statements = [] := by simpa using forLines
  rw [← labels] at readBody
  -- Reading is sound, so the draft has the globals that the body mentions.
  have sameGlobals : Draft.globals ⟨f.name, f.arguments, sections⟩ = f.globals := by
    obtain ⟨⟨ts, found, isRest⟩, -⟩ := sound_body (labels ▸ renders.distinctLabels) readBody
      (List.nodup_append.mp renders.distinctNames).1
    obtain ⟨body', close', isBody', -, rfl⟩ := remainder_nil_iff.mp found
    obtain rfl : body = body' := List.append_inj_left' (List.append_cancel_right isRest) rfl
    rw [← globals]
    exact (Draft.mentions_body (d := ⟨f.name, f.arguments, sections⟩) isBody').symm
  obtain ⟨defined, same⟩ := Draft.toFunc_eq renders.inOrder forParagraphs sameGlobals
  rw [← forName, ← forArguments] at defined same
  rw [← forArguments] at readBody
  rw [List.append_assoc]
  refine function_eq_ok.mpr
    ⟨name, arguments, _, [], sections, readHead, ?_, ?_, readBody, defined, same⟩
  · rw [forArguments]
    exact (List.nodup_append.mp renders.distinctNames).1
  · rw [labels]
    exact renders.distinctLabels

/-! ## Sources -/

theorem ne_nil_of_renders {ts : List Token} (renders : f.Renders ts) : ts ≠ [] := by
  obtain ⟨_, -, ⟨head, isHead, _, ⟨_, -, _, ⟨close, -, rfl⟩, rfl⟩, rfl⟩, -⟩ := renders.written
  simp

/-- Tokens are read as the functions that they write, one after the other. -/
theorem functions_eq_ok {ts : List Token} {fs : List Func} :
    functions ts = .ok fs ↔ ts ∈ (fs.map Func.renderings).prod := by
  constructor
  · intro read
    fun_induction functions ts generalizing fs with
    | case1 =>
      cases read
      exact Language.nil_mem_one
    | case2 => cases read
    | case3 => cases read
    | case4 t tail f after readFirst more readMore ih =>
      cases read
      obtain ⟨us, renders, whole⟩ := sound_function readFirst
      rw [whole, List.map_cons, List.prod_cons]
      exact Language.append_mem_mul renders (ih readMore)
  · intro mem
    induction fs generalizing ts with
    | nil =>
      obtain rfl := (Language.mem_one _).mp mem
      rw [functions]
    | cons f fs ih =>
      rw [List.map_cons, List.prod_cons] at mem
      obtain ⟨us, renders, vs, areMore, rfl⟩ := mem
      have readFirst := complete_function renders vs
      have readMore := ih areMore
      obtain ⟨t, us, rfl⟩ := List.exists_cons_of_ne_nil (ne_nil_of_renders renders)
      show functions (t :: (us ++ vs)) = _
      rw [functions]
      split
      · next failed =>
        rw [List.cons_append, failed] at readFirst
        cases readFirst
      · next found =>
        rw [List.cons_append, found] at readFirst
        cases readFirst
        rw [readMore]

theorem parse_eq_ok {source : String} {fs : List Func} :
    parse source = .ok fs ↔
      ∃ tokens, tokenize source.toList = .ok tokens ∧ functions tokens = .ok fs := by
  unfold parse ofChars ofTokens
  cases tokenize source.toList with
  | error e => simp
  | ok tokens => cases read : functions tokens <;> simp [read]

/-- **A source is read as the functions it writes, and as nothing else.** -/
theorem parse_eq_ok_iff_renders {source : String} {fs : List Func} :
    parse source = .ok fs ↔
      ∃ tokens, tokenize source.toList = .ok tokens ∧ tokens ∈ (fs.map Func.renderings).prod := by
  simp only [parse_eq_ok, functions_eq_ok]

end Source

end BlockReuse
