import BlockReuse.Proofs.ShownNames

/-!
# Writing — the text of a function is one of its renderings

The text of a function is put together along the same lines as its grammar, so the proof follows
both: each piece of text is read as the phrase of the same shape. What the grammar asks for has to
hold of the function: paths and choices are not empty, types and blocks have names, and operands
name something (`Phrase.Possible`). `Func.Writable` collects these conditions.

A function may have calls without a name, which its text shows under a generated one. Such a text
renders the function with the names it shows, which has the same text (`Func.text_withShownNames`).
So it is enough to look at functions all of whose results have names (`Func.spans_text`).
-/

set_option autoImplicit false

namespace BlockReuse

open Source

/-! ## Languages with a phrase -/

namespace Source.Phrase

variable {ν : Type}

/-- Some phrase is in a language. -/
def Possible (L : Language Token) : Prop := ∃ ts, ts ∈ L

@[simp]
theorem possible_zero : ¬ Possible 0 := fun ⟨_, mem⟩ => Language.notMem_zero _ mem

@[simp]
theorem possible_one : Possible 1 := ⟨[], Language.nil_mem_one⟩

@[simp]
theorem possible_single {p : Token → Prop} : Possible (single p) ↔ ∃ t, p t :=
  ⟨fun ⟨_, t, holds, _⟩ => ⟨t, holds⟩, fun ⟨t, holds⟩ => ⟨[t], t, holds, rfl⟩⟩

@[simp]
theorem possible_mark {kind : TokenKind} : Possible (mark kind) :=
  possible_single.mpr ⟨⟨kind, "", .start⟩, rfl⟩

@[simp]
theorem possible_word {text : String} : Possible (word text) :=
  possible_single.mpr ⟨⟨.identifier, text, .start⟩, rfl, rfl⟩

@[simp]
theorem possible_mul {L M : Language Token} : Possible (L * M) ↔ Possible L ∧ Possible M :=
  ⟨fun ⟨_, ts, memL, us, memM, _⟩ => ⟨⟨ts, memL⟩, ⟨us, memM⟩⟩,
    fun ⟨⟨_, memL⟩, ⟨_, memM⟩⟩ => ⟨_, Language.append_mem_mul memL memM⟩⟩

@[simp]
theorem possible_prod {items : List (Language Token)} :
    Possible items.prod ↔ ∀ L ∈ items, Possible L := by
  induction items with
  | nil => simp
  | cons L items ih => simp [ih]

@[simp]
theorem possible_listed {items : List (Language Token)} :
    Possible (listed items) ↔ ∀ L ∈ items, Possible L := by
  cases items with
  | nil => simp [listed]
  | cons L items => simp [listed, behindCommas]

@[simp]
theorem possible_values {spells : ν → Token → Prop} {vs : List ν} :
    Possible (values spells vs) ↔ ∀ v ∈ vs, ∃ t, spells v t := by
  simp [values]

/-- An instruction can be written if it could be with any operands, and its operands can. -/
theorem possible_tail {spells : ν → Token → Prop} {labels : List String} {x : Instruction ν} :
    Possible (tail spells labels x) ↔
      Possible (tail (fun (_ : ν) _ => True) labels x) ∧ ∀ v ∈ x.operands, ∃ t, spells v t := by
  have someToken : ∃ _ : Token, True := ⟨⟨.comma, "", .start⟩, trivial⟩
  cases x with
  | phi arms =>
    cases arms with
    | nil => simp [tail]
    | cons first more =>
      simp only [tail, possible_listed, List.forall_mem_map, incoming, possible_mul, possible_mark,
        possible_single, someToken, Instruction.operands, true_and, and_true, forall_and]
  | call callee arguments effects =>
    simp [tail, Instruction.operands, someToken, or_imp, forall_and, and_assoc, and_comm,
      and_left_comm]
  | _ => simp [tail, Instruction.operands, someToken, and_assoc, and_comm, and_left_comm]

theorem path_eq (first : UInt32) (more : List UInt32) :
    path (first :: more) = mark .comma * listed ((first :: more).map pathStep) := by
  rw [path, List.map_cons, behindCommas_cons, mul_assoc, listed]

end Source.Phrase

/-! ## Words -/

theorem Source.isWord_iff {word : String} :
    (word.toList ≠ [] ∧ word.toList.all isNameChar = true ∧
      word.toList.head?.all (fun c => !Text.isDigit c) = true) ↔ IsWord word := by
  simp only [List.all_eq_true, Option.all_eq_true, Bool.not_eq_true']
  exact ⟨fun ⟨nonempty, chars, undigited⟩ => ⟨⟨nonempty, chars⟩, undigited⟩,
    fun ⟨⟨nonempty, chars⟩, undigited⟩ => ⟨nonempty, chars, undigited⟩⟩

instance (word : String) : Decidable (IsWord word) := decidable_of_iff _ Source.isWord_iff

theorem Mnemonic.isWord_text (m : Mnemonic) : IsWord m.text := by
  cases m with
  | binary op => cases op <;> decide
  | cast op => cases op <;> decide
  | _ => decide

theorem Predicate.isWord_mnemonic (p : Predicate) : IsWord p.mnemonic := by
  rcases p with p | p <;> cases p <;> decide

/-! ## What has a fixed spelling -/

theorem spans_typeName {type : IrType} (possible : Phrase.Possible (Phrase.typeName type)) :
    Spans Ends type.text (Phrase.typeName type) := by
  obtain ⟨t, class_, spelled⟩ := Phrase.possible_single.mp possible
  have own : type.Spells type.text ∧ IsWord type.text := by
    cases type with
    | int bits =>
      obtain ⟨_, -, -, positive⟩ := spelled
      have written := Text.writes_toDigits bits.toNat
      have chars : (IrType.text (.int bits)).toList = 'i' :: Nat.toDigits 10 bits.toNat := by
        simp [IrType.text]
      refine ⟨⟨_, chars, written, positive⟩, ⟨by simp [chars], fun c mem => ?_⟩, ?_⟩
      · rw [chars] at mem
        rcases List.mem_cons.mp mem with rfl | mem
        · decide
        · exact isNameChar_of_writes written mem
      · rw [chars]
        rintro c ⟨⟩
        decide
    | f32 => exact ⟨rfl, by decide⟩
    | f64 => exact ⟨rfl, by decide⟩
    | ptr => exact ⟨rfl, by decide⟩
  refine (spans_word own.2).mono (Phrase.single_mono fun t written => ?_)
  exact ⟨written.1, written.2 ▸ own.1⟩

theorem spans_pathStep (step : UInt32) :
    Spans Ends (toString step.toNat) (Phrase.pathStep step) := by
  have chars : (toString step.toNat).toList = Nat.toDigits 10 step.toNat := Nat.toList_repr
  have written := Text.writes_toDigits step.toNat
  refine (spans_number (.inl rfl) chars written).mono (Phrase.single_mono fun t spelled => ?_)
  exact ⟨spelled.1, by rwa [spelled.2, chars]⟩

theorem Instruction.isCall_of_producesValue {x : Instruction Value}
    (produces : x.producesValue = false) : x.isCall = false := by
  cases x with
  | call callee arguments effects => cases produces
  | _ => rfl

/-- A path behind a text. -/
theorem Source.Spans.path {text : String} {L : Language Token} {steps : List UInt32}
    (spans : Spans Ends text L) (possible : Phrase.Possible (Phrase.path steps)) :
    Spans Ends (text ++ ", " ++ Text.commaSeparated (steps.map fun step => toString step.toNat))
      (L * Phrase.path steps) := by
  cases steps with
  | nil => exact absurd possible Phrase.possible_zero
  | cons first more =>
    have listed := spans_commaSeparated fun step (_ : step ∈ first :: more) => spans_pathStep step
    have behind := (spans.before spans_comma (by decide)).andThen listed
    rwa [mul_assoc, ← Phrase.path_eq] at behind

namespace Func

variable {f : Func}

theorem spans_showBlock (lexical : f.Lexical) {block : Nat}
    (possible : Phrase.Possible (Phrase.blockRef f.labels block)) :
    Spans Ends (f.showBlock block) (Phrase.blockRef f.labels block) := by
  obtain ⟨t, class_, found⟩ := Phrase.possible_single.mp possible
  have shown : f.showBlock block = t.text := by
    rw [labels, List.getElem?_map] at found
    simp [showBlock, label?, found]
  rw [shown]
  refine (spans_word (lexical.labels _ (List.mem_of_getElem? found))).mono ?_
  exact Phrase.single_mono fun u spelled => ⟨spelled.1, spelled.2 ▸ found⟩

/-- A value that some token spells is written as such a token. -/
theorem spans_showValue (lexical : f.Lexical) {v : Value} (known : ∃ t, f.Spells v t) :
    Spans Ends (f.showValue v) (Phrase.single (f.Spells v)) := by
  obtain ⟨t, spelled⟩ := known
  cases v with
  | inst index =>
    obtain ⟨class_, named⟩ := spelled
    have shown : f.showValue (.inst index) = "%" ++ t.text := by simp [showValue, shownName, named]
    rw [shown]
    refine (spans_localName (lexical.results _ _ named)).mono ?_
    exact Phrase.single_mono fun u spelled => ⟨spelled.1, spelled.2 ▸ named⟩
  | argument index =>
    obtain ⟨class_, found⟩ := spelled
    have shown : f.showValue (.argument index) = "%" ++ t.text := by simp [showValue, found]
    rw [shown]
    refine (spans_localName (lexical.arguments _ (List.mem_of_getElem? found))).mono ?_
    exact Phrase.single_mono fun u spelled => ⟨spelled.1, spelled.2 ▸ found⟩
  | global index =>
    obtain ⟨class_, found⟩ := spelled
    have shown : f.showValue (.global index) = "@" ++ t.text := by simp [showValue, found]
    rw [shown]
    refine (spans_globalName (lexical.globals _ (List.mem_of_getElem? found))).mono ?_
    exact Phrase.single_mono fun u spelled => ⟨spelled.1, spelled.2 ▸ found⟩
  | const value =>
    obtain ⟨sign, digits, n, signed, chars, written, literal⟩ := Text.toString_int value.toInt
    refine (spans_number signed chars written).mono (Phrase.single_mono fun u spelled => ?_)
    exact ⟨spelled.1, by rwa [spelled.2, ← chars] at *⟩

/-! ## Instructions -/

/-- What stands behind a mnemonic is nothing, or starts with a blank. -/
theorem showTail_parts (f : Func) (x : Instruction Value) :
    f.showTail x = "" ∨ Parts (f.showTail x) := by
  have blank (text : String) : Parts (" " ++ text) := Parts.append (by decide) text
  cases x with
  | fence => exact .inl rfl
  | ret value =>
    cases value with
    | none => exact .inl rfl
    | some value => exact .inr (blank _)
  | _ =>
    refine .inr ?_
    simp only [showTail, String.append_assoc]
    exact blank _

theorem spans_volatileMark (isVolatile : Bool) :
    Spans Any (volatileMark isVolatile) (Phrase.optionalWord "volatile" isVolatile) := by
  cases isVolatile with
  | false => exact spans_empty
  | true => exact (spans_word (show IsWord "volatile" by decide)).blank

theorem spans_attribute {effects : Effects}
    (possible : Phrase.Possible (Phrase.callEffects effects)) :
    Spans Any effects.attribute (Phrase.callEffects effects) := by
  rcases effects with ⟨_ | _, _ | _⟩
  · exact (spans_word (show IsWord "readnone" by decide)).blank
  · exact absurd possible Phrase.possible_zero
  · exact (spans_word (show IsWord "readonly" by decide)).blank
  · exact spans_empty

/-- The text of an instruction behind its mnemonic. -/
theorem spans_showTail (lexical : f.Lexical) {x : Instruction Value}
    (possible : Phrase.Possible (Phrase.tail f.Spells f.labels x)) :
    Spans Ends (f.showTail x) (Phrase.tail f.Spells f.labels x) := by
  have known := (Phrase.possible_tail.mp possible).2
  have operand {v : Value} (mem : v ∈ x.operands) :
      Spans Ends (f.showValue v) (Phrase.single (f.Spells v)) :=
    spans_showValue lexical (known v mem)
  have operands {vs : List Value} (sub : ∀ v ∈ vs, v ∈ x.operands) :
      Spans Ends (Text.commaSeparated (vs.map f.showValue)) (Phrase.values f.Spells vs) :=
    spans_commaSeparated fun v mem => operand (sub v mem)
  have one (v : Value) (mem : v ∈ x.operands) :
      Spans Ends (f.showValue v) (Phrase.values f.Spells [v]) := by
    rw [Phrase.values_one]
    exact operand mem
  cases x with
  | binary op left right => exact (operands fun v mem => mem).behindBlank
  | compare p left right =>
    have predicate := (spans_word p.isWord_mnemonic).behindBlank.blank
    exact predicate.andThen (operands fun v mem => mem)
  | extractElement vector index => exact (operands fun v mem => mem).behindBlank
  | insertElement vector value index => exact (operands fun v mem => mem).behindBlank
  | shuffleVector left right mask => exact (operands fun v mem => mem).behindBlank
  | gep element base indices =>
    have type := (spans_typeName (Phrase.possible_mul.mp possible).1).behindBlank.blank
    exact type.andThen (operands fun v mem => mem)
  | extractValue aggregate path =>
    exact (one aggregate List.mem_cons_self).behindBlank.path
      (Phrase.possible_mul.mp possible).2
  | insertValue aggregate value path =>
    exact (operands fun v mem => mem).behindBlank.path (Phrase.possible_mul.mp possible).2
  | phi arms =>
    cases arms with
    | nil => exact absurd possible Phrase.possible_zero
    | cons first more =>
      have arm (a : Nat × Value) (mem : a ∈ first :: more) :
          Spans Ends ("[" ++ f.showBlock a.1 ++ ", " ++ f.showValue a.2 ++ "]")
            (Phrase.incoming f.Spells f.labels a) := by
        rw [Phrase.tail, Phrase.possible_listed] at possible
        have possible := possible _ (List.mem_map_of_mem mem)
        simp only [Phrase.incoming, Phrase.possible_mul] at possible
        have opened :=
          (spans_mark (c := '[') rfl).andThen (spans_showBlock lexical possible.1.1.1.2)
        have value := (opened.before spans_comma (by decide)).andThen
          (operand (List.mem_map_of_mem mem))
        exact (value.before (spans_mark (c := ']') rfl) (by decide)).weaken
      exact (spans_commaSeparated arm).behindBlank
  | select condition ifTrue ifFalse => exact (operands fun v mem => mem).behindBlank
  | cast op value target =>
    have type := spans_typeName (Phrase.possible_mul.mp possible).2
    have keyword := (spans_word (show IsWord "to" by decide)).behindBlank.blank
    have value := (one value List.mem_cons_self).behindBlank
    exact (value.before keyword (by decide)).andThen type
  | load type pointer isVolatile =>
    have possible := (Phrase.possible_mul.mp (Phrase.possible_mul.mp possible).1).1
    have type := (spans_volatileMark isVolatile).behindBlank.andThen
      (spans_typeName (Phrase.possible_mul.mp possible).2)
    exact (type.before spans_comma (by decide)).andThen (one pointer List.mem_cons_self)
  | store type value pointer isVolatile =>
    have possible := (Phrase.possible_mul.mp possible).1
    have type := (spans_volatileMark isVolatile).behindBlank.andThen
      (spans_typeName (Phrase.possible_mul.mp possible).2)
    exact type.blank.andThen (operands fun v mem => mem)
  | alloca type => exact (spans_typeName possible).behindBlank
  | call callee arguments effects =>
    simp only [Phrase.tail, Phrase.possible_mul] at possible
    have called := (spans_attribute possible.1.1.1.1).behindBlank.andThen
      (one callee (List.mem_append_right arguments List.mem_cons_self))
    have opened := called.before (spans_mark (c := '(') rfl) (by decide)
    have filled := opened.andThen (operands fun v mem => List.mem_append_left [callee] mem)
    exact (filled.before (spans_mark (c := ')') rfl) (by decide)).weaken
  | fence => exact spans_empty
  | branch target => exact (spans_showBlock lexical possible).behindBlank
  | condBranch condition ifTrue ifFalse =>
    rw [Phrase.tail, Phrase.possible_listed] at possible
    have each : ∀ item ∈ [(f.showValue condition, Phrase.single (f.Spells condition)),
        (f.showBlock ifTrue, Phrase.blockRef f.labels ifTrue),
        (f.showBlock ifFalse, Phrase.blockRef f.labels ifFalse)], Spans Ends item.1 item.2 := by
      intro item mem
      simp only [List.mem_cons, List.not_mem_nil, or_false] at mem
      rcases mem with rfl | rfl | rfl
      · exact operand List.mem_cons_self
      · exact spans_showBlock lexical (possible _ (by simp))
      · exact spans_showBlock lexical (possible _ (by simp))
    exact (spans_commaSeparated each).behindBlank
  | ret value =>
    cases value with
    | none => exact spans_empty
    | some value => exact (one value List.mem_cons_self).behindBlank

/-! ## Lines and functions -/

theorem spans_showInstruction (lexical : f.Lexical) {x : Instruction Value}
    (possible : Phrase.Possible (Phrase.tail f.Spells f.labels x)) :
    Spans Ends (f.showInstruction x)
      (Phrase.word x.mnemonic.text * Phrase.tail f.Spells f.labels x) := by
  refine (spans_word x.mnemonic.isWord_text).append (spans_showTail lexical possible) ?_
  intro rest ends
  rcases f.showTail_parts x with empty | parts
  · rw [empty]
    exact ends
  · exact parts.ends rest

/-- The name of the global that a value is. -/
def mention? (f : Func) : Value → Option String
  | .global index => f.globals[index]?
  | _ => none

/-- The globals that the instructions mention, in the order of the text. -/
def mentions (f : Func) : List String :=
  (f.instructions.flatMap Instruction.written).filterMap f.mention?

/-- Every result has a name. -/
def AllNamed (f : Func) : Prop :=
  ∀ d ∈ f.definitions, d.instruction.producesValue = true → d.name.isSome

/-- What has to hold of a function for its text to be read again. -/
structure Writable (f : Func) : Prop where
  inOrder : f.blocks.flatMap Block.members = List.range f.definitions.length
  distinctNames : (f.arguments ++ f.names.reduceOption).Nodup
  distinctLabels : f.labels.Nodup
  wellNamed : ∀ d ∈ f.definitions, d.line.WellNamed
  possible : ∀ d ∈ f.definitions, Phrase.Possible (Phrase.tail f.Spells f.labels d.instruction)
  mentions : f.mentions.eraseDups = f.globals
  lexical : f.Lexical

theorem spans_definitionLine (writable : f.Writable) (allNamed : f.AllNamed) {index : Nat}
    {d : Definition} (found : f.definitions[index]? = some d) :
    Spans Ends (f.definitionLine index d.instruction) (Phrase.line f.Spells f.labels d.line) := by
  have mem := List.mem_of_getElem? found
  have indent := spans_blanks "  " (by decide)
  have instruction := spans_showInstruction writable.lexical (writable.possible d mem)
  have result : Spans Any (if d.instruction.producesValue then
      f.showValue (.inst index) ++ " = " else "") (Phrase.result d.name) := by
    cases produces : d.instruction.producesValue with
    | false =>
      have unnamed : d.name = none := (writable.wellNamed d mem).unnamed produces
      rw [unnamed]
      exact spans_empty
    | true =>
      obtain ⟨name, named⟩ := Option.isSome_iff_exists.mp (allNamed d mem produces)
      have given : f.resultName? index = some name := by simp [resultName?, found, named]
      have shown : f.showValue (.inst index) = "%" ++ name := by simp [showValue, shownName, given]
      have equals := (spans_mark (c := '=') rfl).behindBlank.weaken.blank
      rw [named, shown]
      exact (spans_localName (writable.lexical.results index name given)).before equals (by decide)
  have line := (indent.andThen result).andThen instruction
  rwa [one_mul, ← mul_assoc] at line

theorem spans_lineEnd : Spans Any "\n" 1 := spans_blanks "\n" (by decide)

/-- The lines of some instructions. -/
theorem spans_lines (writable : f.Writable) (allNamed : f.AllNamed) (indices : List Nat) :
    Spans Any
      (String.join ((indices.filterMap fun index =>
        (f.instruction? index).map (f.definitionLine index)).map (· ++ "\n")))
      (Phrase.lines f.Spells f.labels (f.linesAt indices)) := by
  induction indices with
  | nil => exact spans_empty
  | cons index indices ih =>
    cases found : f.definitions[index]? with
    | none => simpa [instruction?, linesAt, found] using ih
    | some d =>
      have line := (spans_definitionLine writable allNamed found).before spans_lineEnd (by decide)
      rw [mul_one] at line
      simpa [instruction?, linesAt, found, Phrase.lines] using line.andThen ih

theorem spans_block (writable : f.Writable) (allNamed : f.AllNamed) {b : Block}
    (mem : b ∈ f.blocks) : Spans Any (String.join ((f.blockLines b).map (· ++ "\n")))
      (Phrase.paragraph f.Spells f.labels ⟨b.label, f.linesAt b.members⟩) := by
  have label := spans_word (writable.lexical.labels b.label (List.mem_map_of_mem mem))
  have colon := label.before (spans_mark (c := ':') rfl) (by decide)
  have first := colon.andThen spans_lineEnd
  rw [mul_one] at first
  rw [blockLines, List.map_cons, String.join_cons]
  exact first.andThen (spans_lines writable allNamed b.members)

theorem spans_headLine (lexical : f.Lexical) :
    Spans Any f.headLine (Phrase.head f.name f.arguments) := by
  have keyword := (spans_word (show IsWord "fn" by decide)).blank
  have named : Spans Ends ("fn @" ++ f.name)
      (Phrase.word "fn" * Phrase.spelled .globalName f.name) := by
    have spans := keyword.andThen (spans_globalName lexical.name)
    rwa [← String.append_assoc] at spans
  have opened := named.before (spans_mark (c := '(') rfl) (by decide)
  have arguments :=
    spans_commaSeparated fun name mem => spans_localName (lexical.arguments name mem)
  have closed := (spans_mark (c := ')') rfl).weaken.blank.andThen (spans_mark (c := '\x7b') rfl)
  have whole := (opened.andThen arguments).before closed (by decide)
  rw [← mul_assoc] at whole
  exact whole

theorem text_eq (f : Func) :
    f.text = f.headLine ++ "\n" ++
      (String.join (f.blocks.map fun b => String.join ((f.blockLines b).map (· ++ "\n"))) ++
        "\x7d\n") := by
  have join_blocks (blocks : List Block) :
      String.join ((blocks.flatMap f.blockLines).map (· ++ "\n")) =
        String.join (blocks.map fun b => String.join ((f.blockLines b).map (· ++ "\n"))) := by
    induction blocks with
    | nil => rfl
    | cons b blocks ih =>
      rw [List.flatMap_cons, List.map_append, String.join_append, ih, List.map_cons,
        String.join_cons]
  rw [text, lines, List.cons_append, List.map_cons, List.map_append, String.join_cons,
    String.join_append, join_blocks]
  rfl

theorem globalName?_of_spells {v : Value} {t : Token} (spelled : f.Spells v t) :
    t.globalName? = f.mention? v := by
  cases v with
  | global index =>
    obtain ⟨class_, found⟩ := spelled
    simp [Token.globalName?, class_, mention?, found]
  | inst index => simp [Token.globalName?, spelled.1, mention?]
  | argument index => simp [Token.globalName?, spelled.1, mention?]
  | const value => simp [Token.globalName?, spelled.1, mention?]

/-- The tokens of a body that name globals are those that the instructions mention. -/
theorem mentions_eq (inOrder : f.blocks.flatMap Block.members = List.range f.definitions.length)
    {body : List Token} (mem : body ∈ Phrase.paragraphs f.Spells f.labels f.paragraphs) :
    body.filterMap Token.globalName? = f.mentions := by
  have operand (v : Value) (t : Token) (spelled : f.Spells v t) : t.globalName? = f.mention? v :=
    globalName?_of_spells spelled
  have found := Phrase.picks_globalNames operand f.labels f.paragraphs body mem
  rw [found, ← List.flatMap_assoc, lines_paragraphs inOrder, mentions, List.filterMap_flatMap,
    instructions, List.flatMap_map, List.flatMap_map]
  rfl

/-- The text of a function all of whose results have names is one of its renderings. -/
theorem spans_text (writable : f.Writable) (allNamed : f.AllNamed) :
    Spans Any f.text f.renderings := by
  have head : Spans Any (f.headLine ++ "\n") (Phrase.head f.name f.arguments) := by
    have spans := (spans_headLine writable.lexical).andThen spans_lineEnd
    rwa [mul_one] at spans
  have body := spans_join fun b (mem : b ∈ f.blocks) => spans_block writable allNamed mem
  have close : Spans Any "\x7d\n" (Phrase.mark .closeBrace) := by
    have spans := (spans_mark (c := '\x7d') rfl).andThen spans_lineEnd
    rwa [mul_one] at spans
  have whole := head.andThen (body.andThen close)
  rw [← text_eq] at whole
  refine whole.mono ?_
  rintro _ ⟨hs, isHead, _, ⟨body, isBody, cs, isClose, rfl⟩, rfl⟩
  have isBody : body ∈ Phrase.paragraphs f.Spells f.labels f.paragraphs := by
    rwa [Phrase.paragraphs, paragraphs, List.map_map]
  refine ⟨writable.inOrder, writable.distinctNames, writable.distinctLabels, writable.wellNamed,
    body, isBody, ⟨hs, isHead, _, ⟨body, rfl, cs, isClose, rfl⟩, rfl⟩, ?_⟩
  rw [mentions_eq writable.inOrder isBody, writable.mentions]

/-! ## Functions with unnamed calls -/

theorem spells_withShownNames {v : Value} {t : Token} (spelled : f.Spells v t) :
    f.withShownNames.Spells v t := by
  cases v with
  | inst index => exact ⟨spelled.1, resultName?_withShownNames_of_given spelled.2⟩
  | argument index => exact spelled
  | global index => exact spelled
  | const value => exact spelled

theorem mem_definitions_withShownNames {d : Definition} (mem : d ∈ f.withShownNames.definitions) :
    ∃ e ∈ f.definitions, d.instruction = e.instruction ∧
      (d.instruction.isCall = true → d.name.isSome) ∧
        (d.instruction.isCall = false → d.name = e.name) := by
  obtain ⟨index, found⟩ := List.mem_iff_getElem?.mp mem
  rw [definitions_withShownNames] at found
  obtain ⟨e, isDefinition, rfl⟩ := Option.map_eq_some_iff.mp found
  refine ⟨e, List.mem_of_getElem? isDefinition, rfl, fun isCall => ?_, fun isCall => ?_⟩
  · simp only at isCall
    simp [isCall]
  · simp only at isCall
    simp [isCall]

theorem allNamed_withShownNames (writable : f.Writable) : f.withShownNames.AllNamed := by
  intro d mem produces
  obtain ⟨e, isDefinition, instruction, ofCall, ofOther⟩ := mem_definitions_withShownNames mem
  cases isCall : d.instruction.isCall with
  | true => exact ofCall isCall
  | false =>
    rw [ofOther isCall]
    rw [instruction] at produces isCall
    exact (writable.wellNamed e isDefinition).named produces isCall

theorem writable_withShownNames (writable : f.Writable) : f.withShownNames.Writable where
  inOrder := by simpa [withShownNames] using writable.inOrder
  distinctNames := distinctNames_withShownNames writable.distinctNames
  distinctLabels := writable.distinctLabels
  wellNamed d mem := by
    refine ⟨fun produces _ => allNamed_withShownNames writable d mem produces, ?_⟩
    intro (produces : d.instruction.producesValue = false)
    obtain ⟨e, isDefinition, instruction, -, ofOther⟩ := mem_definitions_withShownNames mem
    have isCall := Instruction.isCall_of_producesValue produces
    rw [instruction] at produces
    exact (ofOther isCall).trans ((writable.wellNamed e isDefinition).unnamed produces)
  possible d mem := by
    obtain ⟨e, isDefinition, instruction, -⟩ := mem_definitions_withShownNames mem
    obtain ⟨ts, written⟩ := writable.possible e isDefinition
    rw [instruction]
    exact ⟨ts, Phrase.tail_mono (fun v _ t => spells_withShownNames) written⟩
  mentions := by
    have same : f.withShownNames.mentions = f.mentions := by
      simp only [Func.mentions, instructions_withShownNames]
      rfl
    rw [same]
    exact writable.mentions
  lexical := lexical_withShownNames writable.lexical

/-- The text of an instruction depends on a function through labels and operands. -/
theorem showTail_congr {g : Func} (blocks : f.blocks = g.blocks) {x : Instruction Value}
    (same : ∀ v ∈ x.operands, f.showValue v = g.showValue v) : f.showTail x = g.showTail x := by
  have block (b : Nat) : f.showBlock b = g.showBlock b := by
    rw [showBlock, label?, blocks, ← label?, ← showBlock]
  have operands {vs : List Value} (sub : ∀ v ∈ vs, v ∈ x.operands) :
      vs.map f.showValue = vs.map g.showValue :=
    List.map_congr_left fun v mem => same v (sub v mem)
  cases x with
  | phi arms =>
    refine congrArg (fun texts => " " ++ Text.commaSeparated texts)
      (List.map_congr_left fun arm mem => ?_)
    simp only [block, same arm.2 (List.mem_map_of_mem mem)]
  | call callee arguments effects =>
    have ofArguments := operands fun v mem => List.mem_append_left [callee] mem
    have ofCallee := same callee (List.mem_append_right arguments List.mem_cons_self)
    simp only [showTail, ofArguments, ofCallee]
  | gep element base indices =>
    have ofOperands := operands fun v mem => mem
    simp only [Instruction.operands] at ofOperands
    simp only [showTail, ofOperands]
  | ret value =>
    cases value with
    | none => rfl
    | some value => simp only [showTail, same value List.mem_cons_self]
  | _ => simp_all [showTail, Instruction.operands]

theorem showValue_withShownNames {v : Value} (known : ∃ t, f.Spells v t) :
    f.withShownNames.showValue v = f.showValue v := by
  obtain ⟨t, spelled⟩ := known
  cases v with
  | inst index =>
    have given := resultName?_withShownNames_of_given spelled.2
    simp [showValue, shownName, given, spelled.2]
  | argument index => rfl
  | global index => rfl
  | const value => rfl

theorem shownName_withShownNames (writable : f.Writable) {index : Nat} {d : Definition}
    (found : f.definitions[index]? = some d) (produces : d.instruction.producesValue = true) :
    f.withShownNames.shownName index = f.shownName index := by
  have isInstruction : f.instruction? index = some d.instruction := by simp [instruction?, found]
  cases isCall : d.instruction.isCall with
  | true =>
    rw [shownName, resultName?_withShownNames isInstruction, if_pos isCall, Option.getD_some]
  | false =>
    have named := (writable.wellNamed d (List.mem_of_getElem? found)).named produces isCall
    obtain ⟨name, isName⟩ := Option.isSome_iff_exists.mp named
    have given : f.resultName? index = some name := by
      rw [resultName?, found]
      exact isName
    rw [shownName, resultName?_withShownNames_of_given given, shownName, given, Option.getD_some,
      Option.getD_some]

theorem definitionLine_withShownNames (writable : f.Writable) {index : Nat} {d : Definition}
    (found : f.definitions[index]? = some d) :
    f.withShownNames.definitionLine index d.instruction = f.definitionLine index d.instruction := by
  have operands := (Phrase.possible_tail.mp (writable.possible d (List.mem_of_getElem? found))).2
  have tail : f.withShownNames.showTail d.instruction = f.showTail d.instruction :=
    showTail_congr (show f.withShownNames.blocks = f.blocks from rfl) fun v isOperand =>
      showValue_withShownNames (operands v isOperand)
  simp only [definitionLine, showInstruction, tail, showValue]
  split
  · next produces => rw [shownName_withShownNames writable found produces]
  · rfl

/-- With the names it is shown under, a function has the text it had. -/
theorem text_withShownNames (writable : f.Writable) : f.withShownNames.text = f.text := by
  have blocks : f.withShownNames.blockLines = f.blockLines := by
    funext b
    simp only [blockLines, instruction?_withShownNames]
    refine congrArg _ (List.filterMap_congr fun index _ => ?_)
    cases found : f.definitions[index]? with
    | none => simp [instruction?, found]
    | some d => simp [instruction?, found, definitionLine_withShownNames writable found]
  rw [text, text, lines, lines, blocks]
  rfl

/-- The text of a function is read as the function with the names it shows. -/
theorem spans_text_withShownNames (writable : f.Writable) :
    Spans Any f.text f.withShownNames.renderings := by
  rw [← text_withShownNames writable]
  exact spans_text (writable_withShownNames writable) (allNamed_withShownNames writable)

end Func

end BlockReuse
