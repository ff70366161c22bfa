import Mathlib.Logic.Relation
import BlockReuse.Proofs.Justification
import BlockReuse.Proofs.Writing

/-!
# Round trip — what is written is read back

Reading the texts of functions gives these functions again, if they are writable. Functions that
were read are: the tokens they were read off write them, and the names among these tokens stay names
when they are written (`writable_of_parse`). A pass leaves them writable, for it moves uses only to
results that have names (`Func.writable_reuse`), and so do any number of passes.
-/

set_option autoImplicit false

namespace BlockReuse

open Source

/-! ## What every phrase of a language has -/

namespace Source.Phrase

/-- Every phrase of a language has a token with a property. -/
def Requires (L : Language Token) (p : Token → Prop) : Prop := ∀ ts ∈ L, ∃ t ∈ ts, p t

variable {L M : Language Token} {p : Token → Prop}

theorem requires_single : Requires (single p) p := by
  rintro ts ⟨t, holds, rfl⟩
  exact ⟨t, List.mem_cons_self, holds⟩

theorem Requires.mul_left (required : Requires M p) : Requires (L * M) p := by
  rintro _ ⟨ts, -, us, mem, rfl⟩
  obtain ⟨t, isToken, holds⟩ := required us mem
  exact ⟨t, List.mem_append_right ts isToken, holds⟩

theorem Requires.mul_right (required : Requires L p) : Requires (L * M) p := by
  rintro _ ⟨ts, mem, us, -, rfl⟩
  obtain ⟨t, isToken, holds⟩ := required ts mem
  exact ⟨t, List.mem_append_left us isToken, holds⟩

theorem requires_prod {items : List (Language Token)} (mem : L ∈ items) (required : Requires L p) :
    Requires items.prod p := by
  induction items with
  | nil => cases mem
  | cons M items ih =>
    rw [List.prod_cons]
    rcases List.mem_cons.mp mem with rfl | mem
    · exact required.mul_right
    · exact (ih mem).mul_left

theorem requires_listed {items : List (Language Token)} (mem : L ∈ items)
    (required : Requires L p) : Requires (listed items) p := by
  cases items with
  | nil => cases mem
  | cons M items =>
    rcases List.mem_cons.mp mem with rfl | mem
    · exact required.mul_right
    · exact (requires_prod (List.mem_map_of_mem mem) required.mul_left).mul_left

end Source.Phrase

namespace Func

variable {f : Func}

/-! ## Functions that were read -/

/-- Every instruction is a line of a paragraph. -/
theorem exists_paragraph
    (inOrder : f.blocks.flatMap Block.members = List.range f.definitions.length) {d : Definition}
    (mem : d ∈ f.definitions) : ∃ p ∈ f.paragraphs, d.line ∈ p.lines := by
  rw [← List.mem_flatMap, lines_paragraphs inOrder]
  exact List.mem_map_of_mem mem

/-- The names in a function are texts of tokens that write it. -/
theorem lexical_of_renders {ts : List Token} (renders : f.Renders ts)
    (lexical : ∀ t ∈ ts, t.Lexical) : f.Lexical := by
  obtain ⟨_, isBody, ⟨hs, isHead, _, ⟨bs, rfl, cs, -, rfl⟩, rfl⟩, globals⟩ := renders.written
  have ofHead {p : Token → Prop} (required : Phrase.Requires (Phrase.head f.name f.arguments) p) :
      ∃ t, t.Lexical ∧ p t := by
    obtain ⟨t, mem, holds⟩ := required hs isHead
    exact ⟨t, lexical t (List.mem_append_left _ mem), holds⟩
  have inBody {t : Token} (mem : t ∈ bs) : t.Lexical :=
    lexical t (List.mem_append_right hs (List.mem_append_left cs mem))
  have ofBody {p : Token → Prop} {q : Phrase.Paragraph Value} (isParagraph : q ∈ f.paragraphs)
      (required : Phrase.Requires (Phrase.paragraph f.Spells f.labels q) p) :
      ∃ t, t.Lexical ∧ p t := by
    have whole := Phrase.requires_prod (List.mem_map_of_mem isParagraph) required
    obtain ⟨t, mem, holds⟩ := whole bs isBody
    exact ⟨t, inBody mem, holds⟩
  constructor
  case name =>
    obtain ⟨t, isLexical, class_, same⟩ :=
      ofHead Phrase.requires_single.mul_left.mul_right.mul_right.mul_right.mul_right
    exact same ▸ isLexical.isName (.inr class_)
  case arguments =>
    intro name mem
    obtain ⟨t, isLexical, class_, same⟩ := ofHead (Phrase.requires_listed (List.mem_map_of_mem mem)
      Phrase.requires_single).mul_left.mul_right.mul_right
    exact same ▸ isLexical.isName (.inl class_)
  case results =>
    intro index name named
    obtain ⟨d, found, hasName⟩ := Option.bind_eq_some_iff.mp named
    obtain ⟨q, isParagraph, isLine⟩ :=
      exists_paragraph renders.inOrder (List.mem_of_getElem? found)
    have ofName : Phrase.Requires (Phrase.result d.name) fun t =>
        t.kind = .localName ∧ t.text = name := by
      rw [hasName]
      exact Phrase.requires_single.mul_right
    obtain ⟨t, isLexical, class_, same⟩ := ofBody isParagraph
      (Phrase.requires_prod (List.mem_map_of_mem isLine) ofName.mul_right.mul_right).mul_left
    exact same ▸ isLexical.isName (.inl class_)
  case globals =>
    intro name mem
    rw [← globals, List.mem_eraseDups] at mem
    obtain ⟨t, isToken, mentioned⟩ := List.mem_filterMap.mp mem
    unfold Token.globalName? at mentioned
    split at mentioned
    · next class_ =>
      cases mentioned
      exact (inBody isToken).isName (.inr class_)
    · cases mentioned
  case labels =>
    intro label mem
    obtain ⟨b, isBlock, rfl⟩ := List.mem_map.mp mem
    obtain ⟨t, isLexical, class_, (same : t.text = b.label)⟩ := ofBody
      (List.mem_map_of_mem isBlock) Phrase.requires_single.mul_right.mul_right
    exact same ▸ isLexical.isWord class_

theorem writable_of_renders {ts : List Token} (renders : f.Renders ts)
    (lexical : ∀ t ∈ ts, t.Lexical) : f.Writable where
  inOrder := renders.inOrder
  distinctNames := renders.distinctNames
  distinctLabels := renders.distinctLabels
  wellNamed := renders.wellNamed
  possible d mem := by
    obtain ⟨body, isBody, -⟩ := renders.written
    obtain ⟨p, isParagraph, isLine⟩ := exists_paragraph renders.inOrder mem
    have possible : Phrase.Possible (Phrase.paragraphs f.Spells f.labels f.paragraphs) :=
      ⟨body, isBody⟩
    rw [Phrase.paragraphs, Phrase.possible_prod] at possible
    have ofParagraph := possible _ (List.mem_map_of_mem isParagraph)
    rw [Phrase.paragraph, Phrase.possible_mul, Phrase.lines, Phrase.possible_prod] at ofParagraph
    have ofLine := ofParagraph.2 _ (List.mem_map_of_mem isLine)
    exact (Phrase.possible_mul.mp ofLine).2
  mentions := by
    obtain ⟨body, isBody, -, globals⟩ := renders.written
    rwa [mentions_eq renders.inOrder isBody] at globals
  lexical := lexical_of_renders renders lexical

end Func

theorem writable_of_parse {source : String} {fs : List Func} (parsed : parse source = .ok fs) :
    ∀ f ∈ fs, f.Writable := by
  obtain ⟨tokens, scanned, read⟩ := parse_eq_ok.mp parsed
  have lexical := lexical_of_tokens scanned
  rw [functions_eq_ok] at read
  clear parsed scanned
  induction fs generalizing tokens with
  | nil => simp
  | cons f fs ih =>
    rw [List.map_cons, List.prod_cons] at read
    obtain ⟨ts, renders, us, read, rfl⟩ := read
    refine List.forall_mem_cons.mpr ⟨?_, ?_⟩
    · exact Func.writable_of_renders renders fun t mem => lexical t (List.mem_append_left us mem)
    · exact ih us read fun t mem => lexical t (List.mem_append_right ts mem)

/-! ## Functions after a pass -/

/-- What may be reused has a result and is no call, so that it has a name wherever it is written. -/
theorem Instruction.producesValue_of_isReusable {x : Instruction Value}
    (reusable : x.isReusable = true) : x.producesValue = true ∧ x.isCall = false := by
  cases x with
  | store => cases reusable
  | call => cases reusable
  | fence => cases reusable
  | branch => cases reusable
  | condBranch => cases reusable
  | ret => cases reusable
  | _ => exact ⟨rfl, rfl⟩

namespace Func

variable {f : Func}

theorem resultName?_mapOperands (g : Value → Value) (index : Nat) :
    (f.mapOperands g).resultName? index = f.resultName? index := by
  rw [resultName?_eq_join, names_mapOperands, ← resultName?_eq_join]

theorem spells_mapOperands (g : Value → Value) {v : Value} {t : Token} :
    (f.mapOperands g).Spells v t ↔ f.Spells v t := by
  cases v with
  | inst index => simp only [Spells, resultName?_mapOperands]
  | _ => exact Iff.rfl

/-- Operands that are replaced by results with names leave a function writable. -/
theorem writable_mapOperands (writable : f.Writable) {g : Value → Value}
    (known : ∀ v, g v = v ∨
      ∃ i j, v = .inst i ∧ g v = .inst j ∧ ∃ name, f.resultName? j = some name) :
    (f.mapOperands g).Writable where
  inOrder := by simpa [mapOperands] using writable.inOrder
  distinctNames := by
    rw [names_mapOperands]
    exact writable.distinctNames
  distinctLabels := writable.distinctLabels
  wellNamed d mem := by
    obtain ⟨e, isDefinition, rfl⟩ := List.mem_map.mp mem
    exact Phrase.Line.wellNamed_map.mpr (writable.wellNamed e isDefinition)
  possible d mem := by
    obtain ⟨e, isDefinition, rfl⟩ := List.mem_map.mp mem
    obtain ⟨expressible, operands⟩ := Phrase.possible_tail.mp (writable.possible e isDefinition)
    rw [Phrase.tail_map]
    refine Phrase.possible_tail.mpr ⟨expressible, fun v mem => ?_⟩
    simp only [spells_mapOperands]
    rcases known v with same | ⟨i, j, -, goes, name, named⟩
    · rw [same]
      exact operands v mem
    · rw [goes]
      exact ⟨⟨.localName, name, .start⟩, rfl, named⟩
  mentions := by
    have unmoved (v : Value) : f.mention? (g v) = f.mention? v := by
      rcases known v with same | ⟨i, j, rfl, goes, -⟩
      · rw [same]
      · rw [goes]
        rfl
    have same : (f.mapOperands g).mentions = f.mentions := by
      rw [Func.mentions, instructions_mapOperands, List.flatMap_map]
      simp only [Instruction.written_map]
      rw [← List.map_flatMap, List.filterMap_map]
      refine List.filterMap_congr fun v _ => ?_
      exact unmoved v
    rw [same]
    exact writable.mentions
  lexical :=
    { writable.lexical with
      results index name named := by
        rw [resultName?_mapOperands] at named
        exact writable.lexical.results index name named }

/-- A pass leaves a function writable: what it points uses at are results with names. -/
theorem writable_reuse (writable : f.Writable) (oracle : Oracle) :
    (reuse oracle f).func.Writable := by
  obtain ⟨func, moves⟩ := reuse_replaces oracle f
  obtain ⟨σ, after, justified⟩ := exists_substitution moves
  rw [func, after]
  refine writable_mapOperands writable fun v => ?_
  rcases justified v with same | ⟨i, j, old, new, -, key, -, targetKey⟩
  · exact .inl same
  · refine .inr ⟨i, j, old, new, ?_⟩
    rw [after, key?_mapOperands] at targetKey
    obtain ⟨_, ownKey, -⟩ := Option.map_eq_some_iff.mp targetKey
    obtain ⟨x, found, keyed⟩ := key?_eq_some.mp ownKey
    obtain ⟨d, isDefinition, rfl⟩ := Option.map_eq_some_iff.mp found
    obtain ⟨produces, isCall⟩ :=
      Instruction.producesValue_of_isReusable (Instruction.isReusable_of_key? keyed)
    have named := (writable.wellNamed d (List.mem_of_getElem? isDefinition)).named produces isCall
    obtain ⟨name, isName⟩ := Option.isSome_iff_exists.mp named
    exact ⟨name, Option.bind_eq_some_iff.mpr ⟨d, isDefinition, isName⟩⟩

end Func

/-- A function is the outcome of some passes, with any oracles, over another one. -/
def ReusesTo : Func → Func → Prop :=
  Relation.ReflTransGen fun f g => ∃ oracle, (reuse oracle f).func = g

theorem writable_of_reusesTo {f g : Func} (writable : f.Writable) (reused : ReusesTo f g) :
    g.Writable := by
  induction reused with
  | refl => exact writable
  | tail _ pass ih =>
    obtain ⟨oracle, rfl⟩ := pass
    exact Func.writable_reuse ih oracle

/-! ## Reading back -/

/-- A function that was written is read back as it was, except that a call without a name has got
the name it is shown under. -/
structure Func.ReadBack (f g : Func) : Prop where
  name : g.name = f.name
  arguments : g.arguments = f.arguments
  globals : g.globals = f.globals
  blocks : g.blocks = f.blocks
  instructions : g.instructions = f.instructions
  results : ∀ index x, f.instruction? index = some x →
    g.resultName? index =
      if x.isCall ∧ f.resultName? index = none then some (f.shownName index)
      else f.resultName? index

theorem readBack_withShownNames (f : Func) : f.ReadBack f.withShownNames where
  name := rfl
  arguments := rfl
  globals := rfl
  blocks := rfl
  instructions := Func.instructions_withShownNames
  results index x found := by
    rw [Func.resultName?_withShownNames found]
    cases given : f.resultName? index <;> simp [Func.shownName, given]

/-- The texts of some functions are read as these functions with the names they show. -/
theorem parse_texts {fs : List Func} (writable : ∀ f ∈ fs, f.Writable) :
    parse (String.join (fs.map Func.text)) = .ok (fs.map Func.withShownNames) := by
  have spans := spans_join fun f mem => Func.spans_text_withShownNames (writable f mem)
  obtain ⟨ts, mem, scanned⟩ := spans.tokenize trivial
  refine parse_eq_ok.mpr ⟨ts, scanned, functions_eq_ok.mpr ?_⟩
  rwa [List.map_map]

/-- **What is written is read back**: the texts of functions that were read, also after any passes
over them, are read as functions that agree with them and have the same texts. -/
theorem parse_texts_of_reusesTo {source : String} {fs gs : List Func}
    (parsed : parse source = .ok fs) (reused : List.Forall₂ ReusesTo fs gs) :
    ∃ hs, parse (String.join (gs.map Func.text)) = .ok hs ∧ List.Forall₂ Func.ReadBack gs hs ∧
      hs.map Func.text = gs.map Func.text := by
  have writable : ∀ g ∈ gs, g.Writable := by
    have each := writable_of_parse parsed
    clear parsed
    induction reused with
    | nil => simp
    | cons head tail ih =>
      obtain ⟨first, more⟩ := List.forall_mem_cons.mp each
      exact List.forall_mem_cons.mpr ⟨writable_of_reusesTo first head, ih more⟩
  refine ⟨gs.map Func.withShownNames, parse_texts writable, ?_, ?_⟩
  · rw [List.forall₂_map_right_iff]
    exact List.forall₂_same.mpr fun g _ => readBack_withShownNames g
  · rw [List.map_map]
    exact List.map_congr_left fun g mem => Func.text_withShownNames (writable g mem)

theorem eq_ok_of_toOption {ε α : Type} {result : Except ε α} {a : α}
    (found : result.toOption = some a) : result = .ok a := by
  cases result with
  | error e => cases found
  | ok b =>
    cases found
    rfl

/-- A call without a name, and a sum that is computed twice. -/
def sumAfterCall : Func where
  name := "f"
  arguments := ["a"]
  globals := ["g"]
  definitions :=
    [⟨.call (.global 0) [.argument 0] .readWrite, none⟩,
      ⟨.binary .add (.argument 0) (.const (-1)), some "x"⟩,
      ⟨.binary .add (.argument 0) (.const (-1)), some "r0"⟩,
      ⟨.ret (some (.inst 2)), none⟩]
  blocks := [⟨"ret", [0, 1, 2, 3]⟩]
  placed := by decide

theorem parse_texts_of_sumAfterCall :
    parse "fn @f(%a) \x7b ret: call @g(%a) %x = add %a, -1 %r0 = add %a, -0x1 ret %r0 \x7d" =
        .ok [sumAfterCall] ∧
      ∃ hs, parse (String.join ([(reuse .conservative sumAfterCall).func].map Func.text)) = .ok hs ∧
        List.Forall₂ Func.ReadBack [(reuse .conservative sumAfterCall).func] hs ∧
          hs.map Func.text = [(reuse .conservative sumAfterCall).func].map Func.text := by
  have parsed : parse
      "fn @f(%a) \x7b ret: call @g(%a) %x = add %a, -1 %r0 = add %a, -0x1 ret %r0 \x7d" =
        .ok [sumAfterCall] := by
    refine eq_ok_of_toOption ?_
    decide +kernel
  exact ⟨parsed, parse_texts_of_reusesTo parsed (.cons (.single ⟨.conservative, rfl⟩) .nil)⟩

end BlockReuse
