import BlockReuse.Proofs.Recognition
import BlockReuse.Source.Reading

/-!
# Bodies — statements and paragraphs are read exactly as they are written

A body is read line by line, with a look at the next token to tell a closing brace, a label and a
statement apart. `Remainder` is what may be left of a body between two rounds: lines that go on with
the paragraph at hand, then paragraphs, then the closing brace. Its constructors are the rounds, so
that both directions go by one induction each: what the loop reads is such a remainder
(`sound_body`), and every remainder is read (`Remainder.yields`).

An instruction need not say where it ends. What follows it in a body is a word, a result or the
closing brace (`Remainder.boundary`), and none of these is taken for a part of it. For the same
reason the labels that are collected before a body is read are those of its paragraphs
(`Remainder.labelTokens`): a colon stands nowhere else.
-/

set_option autoImplicit false

namespace BlockReuse.Source

open BlockReuse.Source.Parser

variable {α β : Type} {rest after : List Token}

/-! ## Names -/

namespace Phrase

variable {ν μ : Type}

/-- Lines have names where they need them, and these differ from each other and from `bound`. -/
structure Named (bound : List String) (ls : List (Line ν)) : Prop where
  distinct : (bound ++ ls.filterMap Line.name).Nodup
  wellNamed : ∀ l ∈ ls, l.WellNamed

theorem named_nil {bound : List String} : Named bound ([] : List (Line ν)) ↔ bound.Nodup := by
  constructor
  · intro named
    simpa using named.distinct
  · intro distinct
    exact ⟨by simpa using distinct, by simp⟩

theorem named_cons {bound : List String} {l : Line ν} {ls : List (Line ν)} :
    Named bound (l :: ls) ↔ l.WellNamed ∧ Named (bound ++ l.name.toList) ls := by
  have names : bound ++ (l :: ls).filterMap Line.name =
      bound ++ l.name.toList ++ ls.filterMap Line.name := by
    cases name : l.name <;> simp [name]
  constructor
  · rintro ⟨distinct, wellNamed⟩
    exact ⟨wellNamed l List.mem_cons_self, names ▸ distinct,
      fun l' mem => wellNamed l' (List.mem_cons_of_mem l mem)⟩
  · rintro ⟨first, distinct, wellNamed⟩
    exact ⟨names ▸ distinct, List.forall_mem_cons.mpr ⟨first, wellNamed⟩⟩

theorem Named.bound_nodup {bound : List String} {ls : List (Line ν)} (named : Named bound ls) :
    bound.Nodup := (List.nodup_append.mp named.distinct).1

end Phrase

/-- A statement as a line. -/
def Statement.line (s : Statement) : Phrase.Line Operand := ⟨s.resultName, s.instruction⟩

/-- A section as a paragraph. -/
def Section.paragraph (s : Section) : Phrase.Paragraph Operand :=
  ⟨s.label, s.statements.map Statement.line⟩

theorem Statement.fault?_eq_none {s : Statement} {bound : List String} :
    s.fault? bound = none ↔ s.line.WellNamed ∧ ∀ name ∈ s.resultName, name ∉ bound := by
  unfold fault?
  cases result : s.result with
  | none =>
    have unnamed : s.line.name = none := by simp [line, resultName, result]
    have noName : s.resultName = none := unnamed
    simp only [mayOmitResult, noName]
    constructor
    · intro fine
      refine ⟨⟨fun produces notCall => ?_, fun _ => unnamed⟩, by simp⟩
      simp_all [line]
    · rintro ⟨⟨named, -⟩, -⟩
      simp_all [line]
  | some t =>
    have name : s.resultName = some t.text := by simp [resultName, result]
    have named : s.line.name = some t.text := name
    simp only [name]
    constructor
    · intro fine
      have produces : s.instruction.producesValue = true := by
        by_contra silent
        simp [Bool.eq_false_of_not_eq_true silent] at fine
      refine ⟨⟨fun _ _ => by simp [named], fun silent => ?_⟩, ?_⟩
      · simp [line, produces] at silent
      · simpa [produces] using fine
    · rintro ⟨⟨-, unnamed⟩, free⟩
      simp_all [line]

/-! ## Statements -/

theorem sound_optionalResult :
    Sound optionalResult fun result => Phrase.result (result.map Token.text) := by
  intro rest result after read
  unfold optionalResult at read
  split at read
  · next t e rest =>
    split at read
    · next named =>
      cases read
      have isName : [t] ∈ Phrase.spelled .localName t.text := ⟨t, ⟨named.1, rfl⟩, rfl⟩
      have isEquals : [e] ∈ Phrase.mark .equals := ⟨e, named.2, rfl⟩
      have isResult := Language.append_mem_mul isName isEquals
      exact ⟨[t] ++ [e], isResult, rfl⟩
    · cases read
      exact ⟨[], Language.nil_mem_one, rfl⟩
  · cases read
    exact ⟨[], Language.nil_mem_one, rfl⟩

theorem yields_optionalResult {name : Option String} {ts : List Token}
    (mem : ts ∈ Phrase.result name) {t : Token} {tail : List Token} (word : t.kind = .identifier) :
    Yields optionalResult (ts ++ t :: tail) (fun result => result.map Token.text = name)
      (t :: tail) := by
  cases name with
  | none =>
    obtain rfl := (Language.mem_one _).mp mem
    refine ⟨none, rfl, ?_⟩
    cases tail <;> simp [optionalResult, word]
  | some name =>
    obtain ⟨_, ⟨u, ⟨class_, rfl⟩, rfl⟩, _, ⟨e, equals, rfl⟩, rfl⟩ := mem
    exact ⟨some u, rfl, by simp [optionalResult, class_, equals]⟩

theorem sound_statement {labels bound : List String} (distinct : labels.Nodup) (underLabel : Bool) :
    Sound (statement labels bound underLabel) fun s =>
      {ts | underLabel = true ∧ s.fault? bound = none ∧
        ts ∈ Phrase.line Operand.Reads labels s.line} := by
  refine sound_optionalResult.bind fun result isResult =>
    (sound_token _ _).bind fun word isWord => ?_
  split
  · exact soundAfter_failAt
  next under =>
  split
  · exact soundAfter_failAt
  next m found =>
  refine (sound_instruction distinct m).bind fun x isTail => ?_
  obtain ⟨rfl, isTail⟩ := isTail
  dsimp only
  split
  · exact soundAfter_failAt
  next fine =>
  refine soundAfter_pure ⟨by simpa using under, fine, ?_⟩
  rw [mnemonic_eq_some.mp found] at isWord
  exact Language.append_mem_mul (Language.append_mem_mul isResult isWord) isTail

theorem yields_statement (stands : Operand → β) {labels bound : List String}
    (distinct : labels.Nodup)
    {l : Phrase.Line β} {ts : List Token} (mem : ts ∈ Phrase.line (Through stands) labels l)
    (wellNamed : l.WellNamed) (free : ∀ name ∈ l.name, name ∉ bound) {after : List Token}
    (boundary : Boundary after) :
    Yields (statement labels bound true) (ts ++ after) (fun s => s.line.map stands = l) after := by
  obtain ⟨_, ⟨us, isResult, _, ⟨t, ⟨class_, same⟩, rfl⟩, rfl⟩, vs, isTail, rfl⟩ := mem
  simp only [List.append_assoc, List.singleton_append]
  refine (yields_optionalResult isResult class_).bind fun result forResult => ?_
  refine Yields.bind ⟨t, rfl, token_eq_ok.mpr ⟨class_, rfl⟩⟩ fun word isWord => ?_
  subst isWord
  rw [if_neg (by simp), same, Mnemonic.ofText?_text]
  refine (yields_instruction stands distinct isTail boundary).bind fun x forTail => ?_
  have forLine : Phrase.Line.map stands (Statement.line ⟨result, t, x⟩) = l := by
    simp only [Statement.line, Statement.resultName, forResult, Phrase.Line.map, forTail]
  have fine : Statement.fault? ⟨result, t, x⟩ bound = none := by
    rw [Statement.fault?_eq_none, ← Phrase.Line.wellNamed_map, forLine]
    refine ⟨wellNamed, fun name mem => free name ?_⟩
    rwa [← forResult]
  dsimp only
  rw [fine]
  exact yields_pure forLine

/-! ## Bodies -/

/-- Some tokens are the rest of a body: lines that go on with the paragraph at hand, paragraphs and
the closing brace. -/
inductive Remainder {ν : Type} (spells : ν → Token → Prop) (labels : List String) :
    List (Phrase.Line ν) → List (Phrase.Paragraph ν) → List Token → Prop where
  | close {t : Token} (brace : t.kind = .closeBrace) : Remainder spells labels [] [] [t]
  | label {p : Phrase.Paragraph ν} {ps : List (Phrase.Paragraph ν)} {t u : Token} {us : List Token}
    (isLabel : t.kind = .identifier ∧ t.text = p.label) (isColon : u.kind = .colon)
    (rest : Remainder spells labels p.lines ps us) :
    Remainder spells labels [] (p :: ps) (t :: u :: us)
  | line {l : Phrase.Line ν} {ls : List (Phrase.Line ν)} {ps : List (Phrase.Paragraph ν)}
    {us vs : List Token} (isLine : us ∈ Phrase.line spells labels l)
    (rest : Remainder spells labels ls ps vs) : Remainder spells labels (l :: ls) ps (us ++ vs)

section Remainder

open Phrase

variable {ν : Type} {spells : ν → Token → Prop} {labels : List String}

theorem Remainder.append_lines {ls : List (Line ν)} {ps : List (Paragraph ν)} {us vs : List Token}
    (areLines : us ∈ lines spells labels ls) (rest : Remainder spells labels [] ps vs) :
    Remainder spells labels ls ps (us ++ vs) := by
  induction ls generalizing us with
  | nil =>
    obtain rfl := (Language.mem_one _).mp areLines
    exact rest
  | cons l ls ih =>
    rw [lines, List.map_cons, List.prod_cons] at areLines
    obtain ⟨us, isLine, us', areLines, rfl⟩ := areLines
    rw [List.append_assoc]
    exact .line isLine (ih areLines)

theorem remainder_iff {ls : List (Line ν)} {ps : List (Paragraph ν)} {ts : List Token} :
    Remainder spells labels ls ps ts ↔
      ts ∈ lines spells labels ls * (paragraphs spells labels ps * mark .closeBrace) := by
  constructor
  · intro rest
    induction rest with
    | close brace =>
      simp only [lines, paragraphs, List.map_nil, List.prod_nil, one_mul]
      exact ⟨_, brace, rfl⟩
    | label isLabel isColon rest ih =>
      simp only [lines, paragraphs, paragraph, List.map_nil, List.prod_nil, one_mul, List.map_cons,
        List.prod_cons, mul_assoc]
      exact mem_single_mul.mpr ⟨_, isLabel, _, mem_single_mul.mpr ⟨_, isColon, _, ih, rfl⟩, rfl⟩
    | line isLine rest ih =>
      simp only [lines, List.map_cons, List.prod_cons, mul_assoc]
      exact Language.append_mem_mul isLine ih
  · rintro ⟨us, areLines, vs, isRest, rfl⟩
    refine Remainder.append_lines areLines ?_
    clear areLines us
    induction ps generalizing vs with
    | nil =>
      simp only [paragraphs, List.map_nil, List.prod_nil, one_mul] at isRest
      obtain ⟨t, brace, rfl⟩ := isRest
      exact .close brace
    | cons p ps ih =>
      simp only [paragraphs, paragraph, List.map_cons, List.prod_cons, mul_assoc] at isRest
      obtain ⟨t, isLabel, ts, marked, rfl⟩ := mem_single_mul.mp isRest
      obtain ⟨u, isColon, _, ⟨us, areLines, vs, isNext, rfl⟩, rfl⟩ := mem_single_mul.mp marked
      exact .label isLabel isColon (.append_lines areLines (ih vs isNext))

theorem boundary_line {l : Line ν} {ts : List Token} (mem : ts ∈ line spells labels l)
    (after : List Token) : Boundary (ts ++ after) := by
  obtain ⟨_, ⟨us, isResult, _, ⟨t, isWord, rfl⟩, rfl⟩, vs, isTail, rfl⟩ := mem
  cases name : l.name with
  | none =>
    rw [name] at isResult
    obtain rfl := (Language.mem_one _).mp isResult
    exact .word isWord.1
  | some _ =>
    rw [name] at isResult
    obtain ⟨_, ⟨u, isName, rfl⟩, _, ⟨e, isEquals, rfl⟩, rfl⟩ := isResult
    exact .result isName.1 isEquals

/-- Whatever is left of a body, it starts with something that ends an instruction. -/
theorem Remainder.boundary {ls : List (Line ν)} {ps : List (Paragraph ν)} {ts : List Token}
    (remainder : Remainder spells labels ls ps ts) (after : List Token) :
    Boundary (ts ++ after) := by
  cases remainder with
  | close brace => exact .close brace
  | label isLabel isColon rest => exact .word isLabel.1
  | line isLine rest =>
    rw [List.append_assoc]
    exact boundary_line isLine _

end Remainder

/-- What is read of a body is its lines and paragraphs, with names where they are needed. -/
theorem sound_body {labels bound : List String} {underLabel : Bool} (distinct : labels.Nodup)
    {statements : List Statement} {sections : List Section}
    (read : body labels bound underLabel rest = .ok ((statements, sections), after))
    (free : bound.Nodup) :
    (∃ ts, Remainder Operand.Reads labels (statements.map Statement.line)
      (sections.map Section.paragraph) ts ∧ rest = ts ++ after) ∧
    Phrase.Named bound
      ((statements ++ sections.flatMap Section.statements).map Statement.line) ∧
    (underLabel = false → statements = []) := by
  fun_induction body labels bound underLabel rest generalizing statements sections after with
  | case1 => cases read
  | case2 bound underLabel t tail brace =>
    cases read
    exact ⟨⟨[t], .close brace, rfl⟩, Phrase.named_nil.mpr free, fun _ => rfl⟩
  | case3 => cases read
  | case4 bound underLabel t tail notClosed isLabel inner sections' final readRest ih =>
    cases read
    obtain ⟨⟨ts, remainder, found⟩, named, -⟩ := ih readRest free
    cases tail with
    | nil => simp [colonNext] at isLabel
    | cons u tail =>
      have colon : u.kind = .colon := by simpa [colonNext] using isLabel.2
      obtain rfl : tail = ts ++ final := found
      exact ⟨⟨t :: u :: ts, .label ⟨isLabel.1, rfl⟩ colon remainder, rfl⟩, by simpa using named,
        fun _ => rfl⟩
  | case5 => cases read
  | case6 => cases read
  | case7 bound underLabel t tail notClosed notLabel s middle readLine statements' sections' final
      readRest ih =>
    cases read
    obtain ⟨us, ⟨under, fine, isLine⟩, found⟩ := sound_statement distinct _ readLine
    obtain ⟨wellNamed, unbound⟩ := Statement.fault?_eq_none.mp fine
    have free' : (bound ++ s.resultName.toList).Nodup := by
      cases name : s.resultName with
      | none => simpa using free
      | some n => exact free.append (List.nodup_singleton n) (by simpa using unbound n name)
    obtain ⟨⟨vs, remainder, rfl⟩, named, -⟩ := ih readRest free'
    refine ⟨⟨us ++ vs, .line isLine remainder, by simp [found]⟩, ?_, by simp [under]⟩
    exact Phrase.named_cons.mpr ⟨wellNamed, named⟩

/-! ## Labels -/

theorem labelTokens_append {ts : List Token}
    (plain : ∀ t ∈ ts, t.kind ≠ .colon ∧ t.kind ≠ .closeBrace) {after : List Token}
    (boundary : Boundary after) : labelTokens (ts ++ after) = labelTokens after := by
  induction ts with
  | nil => rfl
  | cons t ts ih =>
    obtain ⟨-, notClose⟩ := plain t List.mem_cons_self
    have rest := ih fun u mem => plain u (List.mem_cons_of_mem t mem)
    cases ts with
    | nil =>
      have noLabel : nextKind after ≠ some .colon :=
        boundary.nextKind_ne (by decide) (by decide) (by decide)
      cases after with
      | nil => cases boundary
      | cons u after =>
        simp only [nextKind, List.head?_cons, Option.map_some, ne_eq, Option.some.injEq] at noLabel
        simp [labelTokens, notClose, noLabel]
    | cons u ts =>
      have noLabel : u.kind ≠ .colon := (plain u (by simp)).1
      rw [← rest]
      simp [labelTokens, notClose, noLabel]

section Labels

variable {ν : Type} {spells : ν → Token → Prop} {labels : List String}
  (operand : ∀ v t, spells v t → ∃ o : Operand, o.Reads t)

include operand

/-- The tokens of a line are neither colons nor closing braces. -/
theorem plain_of_mem_line {l : Phrase.Line ν} {ts : List Token}
    (mem : ts ∈ Phrase.line spells labels l) :
    ∀ t ∈ ts, t.kind ≠ .colon ∧ t.kind ≠ .closeBrace := by
  let pick (t : Token) : Option Token :=
    if t.kind = .colon ∨ t.kind = .closeBrace then some t else none
  have unpicked {t : Token} (colon : t.kind ≠ .colon) (close : t.kind ≠ .closeBrace) :
      pick t = none := if_neg (not_or_intro colon close)
  have frame (t : Token) (frame : t.kind.isFrame = true) : pick t = none :=
    unpicked (fun class_ => by simp [class_, TokenKind.isFrame] at frame)
      (fun class_ => by simp [class_, TokenKind.isFrame] at frame)
  have unspelled (v : ν) (t : Token) (spelled : spells v t) : pick t = none := by
    obtain ⟨o, read⟩ := operand v t spelled
    exact unpicked (kind_ne_of_reads read rfl) (kind_ne_of_reads read rfl)
  have unnamed (t : Token) (class_ : t.kind = .localName ∨ t.kind = .equals) : pick t = none := by
    rcases class_ with class_ | class_ <;> exact unpicked (by simp [class_]) (by simp [class_])
  have nothing : ts.filterMap pick = [] := by
    rw [Phrase.picks_line frame unspelled unnamed labels l ts mem]
    simp
  intro t inLine
  have notPicked := List.filterMap_eq_nil_iff.mp nothing t inLine
  simpa [pick, not_or] using notPicked

/-- The labels that are collected before a body is read are those of its paragraphs. -/
theorem Remainder.labelTokens {ls : List (Phrase.Line ν)} {ps : List (Phrase.Paragraph ν)}
    {ts : List Token} (remainder : Remainder spells labels ls ps ts) (after : List Token) :
    (labelTokens (ts ++ after)).map Token.text = ps.map Phrase.Paragraph.label := by
  induction remainder with
  | close brace => cases after <;> simp [Source.labelTokens, brace]
  | @label p ps t u us isLabel isColon rest ih =>
    have boundary := rest.boundary after
    rw [List.map_cons, ← ih, ← isLabel.2]
    cases ts : us ++ after with
    | nil =>
      rw [ts] at boundary
      cases boundary
    | cons v vs => simp [Source.labelTokens, isLabel.1, isColon, ts]
  | line isLine rest ih =>
    rw [List.append_assoc,
      labelTokens_append (plain_of_mem_line operand isLine) (rest.boundary after)]
    exact ih

end Labels

/-! ## Reading a body that is written -/

theorem body_close {labels bound : List String} {underLabel : Bool} {t : Token}
    (brace : t.kind = .closeBrace) (after : List Token) :
    body labels bound underLabel (t :: after) = .ok (([], []), after) := by
  rw [body, if_pos brace]

theorem body_label {labels bound : List String} {underLabel : Bool} {t u : Token}
    (isLabel : t.kind = .identifier) (isColon : u.kind = .colon) {statements : List Statement}
    {sections : List Section}
    (read : body labels bound true rest = .ok ((statements, sections), after)) :
    body labels bound underLabel (t :: u :: rest) =
      .ok (([], ⟨t.text, statements⟩ :: sections), after) := by
  rw [body, if_neg (by simp [isLabel]), if_pos ⟨isLabel, by simp [colonNext, isColon]⟩,
    List.tail_cons, read]

theorem body_line {labels bound : List String} {underLabel : Bool} {t : Token}
    {tail middle : List Token}
    (notClose : t.kind ≠ .closeBrace) (notLabel : ¬ (t.kind = .identifier ∧ colonNext tail = true))
    {s : Statement} (readLine : statement labels bound underLabel (t :: tail) = .ok (s, middle))
    {statements : List Statement} {sections : List Section}
    (read : body labels (bound ++ s.resultName.toList) underLabel middle =
      .ok ((statements, sections), after)) :
    body labels bound underLabel (t :: tail) = .ok ((s :: statements, sections), after) := by
  rw [body, if_neg notClose, if_neg notLabel]
  split
  · next failed =>
    rw [readLine] at failed
    cases failed
  · next found =>
    rw [readLine] at found
    cases found
    rw [read]

/-- A line is taken neither for a closing brace nor for a label. -/
theorem starts_of_mem_line {ν : Type} {spells : ν → Token → Prop} {labels : List String}
    (operand : ∀ v t, spells v t → ∃ o : Operand, o.Reads t) {l : Phrase.Line ν} {ts : List Token}
    (mem : ts ∈ Phrase.line spells labels l) {after : List Token} (boundary : Boundary after) :
    ∃ t tail, ts ++ after = t :: tail ∧ t.kind ≠ .closeBrace ∧
      ¬ (t.kind = .identifier ∧ colonNext tail = true) := by
  have plain := plain_of_mem_line operand mem
  have noColon : nextKind after ≠ some .colon :=
    boundary.nextKind_ne (by decide) (by decide) (by decide)
  cases ts with
  | nil =>
    obtain ⟨_, ⟨us, -, _, ⟨t, -, rfl⟩, rfl⟩, vs, -, empty⟩ := mem
    simp at empty
  | cons t ts =>
    refine ⟨t, ts ++ after, rfl, (plain t List.mem_cons_self).2, fun ⟨_, colon⟩ => ?_⟩
    cases ts with
    | nil =>
      cases after with
      | nil => cases boundary
      | cons u after => simp_all [colonNext, nextKind]
    | cons u ts =>
      have := (plain u (by simp)).1
      simp_all [colonNext]

/-- Every body is read, and what is read stands for its lines and paragraphs. -/
theorem Remainder.yields (stands : Operand → β) {labels : List String} (distinct : labels.Nodup)
    {ls : List (Phrase.Line β)} {ps : List (Phrase.Paragraph β)} {ts : List Token}
    (remainder : Remainder (Through stands) labels ls ps ts) {bound : List String}
    (named : Phrase.Named bound (ls ++ ps.flatMap Phrase.Paragraph.lines)) (underLabel : Bool)
    (under : ls ≠ [] → underLabel = true) (after : List Token) :
    ∃ statements sections, body labels bound underLabel (ts ++ after) =
        .ok ((statements, sections), after) ∧
      statements.map (fun s => s.line.map stands) = ls ∧
      sections.map (fun s => s.paragraph.map stands) = ps := by
  induction remainder generalizing bound underLabel with
  | @close t brace => exact ⟨[], [], body_close brace after, rfl, rfl⟩
  | @label p ps t u us isLabel isColon rest ih =>
    obtain ⟨statements, sections, read, forLines, forParagraphs⟩ :=
      ih (by simpa using named) true fun _ => rfl
    refine ⟨[], ⟨t.text, statements⟩ :: sections, body_label isLabel.1 isColon read, rfl, ?_⟩
    rw [List.map_cons, forParagraphs]
    have forParagraph :
        Phrase.Paragraph.map stands (Section.paragraph ⟨t.text, statements⟩) = p := by
      simp only [Phrase.Paragraph.map, Section.paragraph, List.map_map, isLabel.2]
      exact congrArg (Phrase.Paragraph.mk p.label) forLines
    rw [forParagraph]
  | @line l ls ps us vs isLine rest ih =>
    obtain rfl : underLabel = true := under (by simp)
    obtain ⟨wellNamed, namedRest⟩ := Phrase.named_cons.mp named
    have unbound : ∀ name ∈ l.name, name ∉ bound := by
      intro name isName mem
      rw [Option.mem_def] at isName
      have distinctNames := namedRest.bound_nodup
      rw [isName] at distinctNames
      exact List.disjoint_of_nodup_append distinctNames mem List.mem_cons_self
    have boundary := rest.boundary after
    rw [List.append_assoc]
    obtain ⟨t, tail, starts, notClose, notLabel⟩ :=
      starts_of_mem_line (fun v t through => through.exists_reads) isLine boundary
    obtain ⟨s, forLine, readLine⟩ :=
      yields_statement stands distinct isLine wellNamed unbound boundary
    have name : s.resultName = l.name := by rw [← forLine]; rfl
    obtain ⟨statements, sections, read, forLines, forParagraphs⟩ := ih namedRest true fun _ => rfl
    rw [starts] at readLine ⊢
    rw [← name] at read
    exact ⟨s :: statements, sections, body_line notClose notLabel readLine read,
      by rw [List.map_cons, forLine, forLines], forParagraphs⟩

end BlockReuse.Source
