import BlockReuse.Proofs.Concatenation
import BlockReuse.Proofs.Faults

/-!
# Diagnostics — errors point at what they speak of, and speak the truth

An error has a position and, most of them, a text. `parse_error_reports` says what the two have to
do with the source: the characters of a lexical error, or else a token with that text, stand at the
position.

What an error says about names is stated about the tokens of the function at hand (`Excerpt`),
without reading them: its arguments are the local names of its head, and in its body results are
marked by an equals sign and labels by a colon. Repeated names are found while the tokens that
define them are passed. That a name is defined nowhere is only said when the body has been read, so
that there the tokens are looked at as the lines they were read as (`Remainder.results`): an equals
sign stands nowhere but behind the name of a result.
-/

set_option autoImplicit false

namespace BlockReuse.Source

open BlockReuse.Source.Parser

/-! ## Labels and results of a body -/

/-- The labels of a body: the identifiers in front of a colon. -/
def labelsIn (body : List Token) : List Token := marked .identifier .colon body

section Marked

variable {kind mark : TokenKind}

theorem marked_cons_of_ne {a : Token} (other : a.kind ≠ kind) (rest : List Token) :
    marked kind mark (a :: rest) = marked kind mark rest := by
  cases rest with
  | nil => rfl
  | cons b rest => simp [marked, other]

theorem marked_eq_nil {ts : List Token} (unmarked : ∀ t ∈ ts, t.kind ≠ mark) :
    marked kind mark ts = [] := by
  fun_induction marked kind mark ts with
  | case1 a b rest isMarked ih => exact absurd isMarked.2 (unmarked b (by simp))
  | case2 a b rest notMarked ih => exact ih fun t mem => unmarked t (List.mem_cons_of_mem a mem)
  | case3 => rfl

/-- Nothing is marked across two parts if the second does not start with a mark. -/
theorem marked_append {us : List Token} (apart : nextKind us ≠ some mark) (ts : List Token) :
    marked kind mark (ts ++ us) = marked kind mark ts ++ marked kind mark us := by
  fun_induction marked kind mark ts with
  | case1 a b rest isMarked ih =>
    simp only [List.cons_append] at ih ⊢
    rw [marked_pair isMarked.1 isMarked.2, ih]
  | case2 a b rest notMarked ih =>
    simp only [List.cons_append] at ih ⊢
    rw [marked, if_neg notMarked, ih]
  | case3 ts short =>
    rcases ts with _ | ⟨t, _ | ⟨b, rest⟩⟩
    · rfl
    · cases us with
      | nil => rfl
      | cons u us =>
        have other : u.kind ≠ mark := by simpa [nextKind] using apart
        simp [marked, other]
    · exact absurd rfl (short t b rest)

end Marked

/-- The labels that are collected before a body is read are those of the body. -/
theorem labelTokens_open {body after : List Token} (opened : Open body)
    (closed : ∀ t ∈ after.head?, t.kind = .closeBrace) :
    labelTokens (body ++ after) = labelsIn body := by
  have none_ : labelTokens after = [] := by
    match after, closed with
    | [], _ => rfl
    | [t], _ => rfl
    | t :: u :: rest, closed => rw [labelTokens, if_pos (closed t rfl)]
  induction body with
  | nil => exact none_
  | cons t body ih =>
    obtain ⟨notClose, opened⟩ := open_cons.mp opened
    have rest := ih opened
    cases body with
    | nil =>
      cases after with
      | nil => rfl
      | cons u after =>
        have notColon : u.kind ≠ .colon := by simp [closed u rfl]
        rw [List.cons_append, List.nil_append, labelTokens, if_neg notClose,
          if_neg (by simp [notColon]), none_]
        rfl
    | cons u body =>
      simp only [List.cons_append, labelsIn] at rest ⊢
      rw [labelTokens, if_neg notClose, marked, rest]

/-- What follows the head of a function is a body and, if it ends, its closing brace. -/
theorem exists_body (inner : List Token) :
    ∃ body after, inner = body ++ after ∧ Open body ∧ ∀ t ∈ after.head?, t.kind = .closeBrace := by
  induction inner with
  | nil => exact ⟨[], [], rfl, open_nil, by simp⟩
  | cons t inner ih =>
    by_cases close : t.kind = .closeBrace
    · exact ⟨[], t :: inner, rfl, open_nil, by simpa using close⟩
    · obtain ⟨body, after, rfl, opened, closed⟩ := ih
      exact ⟨t :: body, after, rfl, open_cons.mpr ⟨close, opened⟩, closed⟩

/-- Tokens without a closing brace that start what follows the head of a function start its body. -/
theorem body_eq_append {body after passed left : List Token}
    (closed : ∀ t ∈ after.head?, t.kind = .closeBrace) (opened : Open passed)
    (whole : body ++ after = passed ++ left) :
    ∃ more, body = passed ++ more ∧ left = more ++ after := by
  induction passed generalizing body with
  | nil => exact ⟨body, rfl, whole.symm⟩
  | cons p passed ih =>
    obtain ⟨notClose, openRest⟩ := open_cons.mp opened
    cases body with
    | nil =>
      rw [List.nil_append] at whole
      exact absurd (closed p (by simp [whole])) notClose
    | cons b body =>
      obtain ⟨rfl, rest⟩ := List.cons.inj whole
      obtain ⟨more, rfl, left⟩ := ih openRest rest
      exact ⟨more, rfl, left⟩

theorem resultsIn_of_mem_line {labels : List String} {l : Phrase.Line Operand} {ts : List Token}
    (mem : ts ∈ Phrase.line Operand.Reads labels l) :
    (resultsIn ts).map Token.text = l.name.toList := by
  obtain ⟨_, ⟨us, isResult, _, ⟨word, isWord, rfl⟩, rfl⟩, vs, isTail, rfl⟩ := mem
  let pick (t : Token) : Option Token := if t.kind = .equals then some t else none
  have nothing : vs.filterMap pick = [] := by
    have frame (t : Token) (frame : t.kind.isFrame = true) : pick t = none :=
      if_neg fun class_ => by simp [class_, TokenKind.isFrame] at frame
    have unspelled (o : Operand) (t : Token) (read : o.Reads t) : pick t = none :=
      if_neg (kind_ne_of_reads read rfl)
    rw [Phrase.picks_tail frame unspelled labels l.instruction vs isTail]
    simp
  have unmarked : ∀ t ∈ vs, t.kind ≠ .equals := by
    intro t inTail isEquals
    have picked := List.filterMap_eq_nil_iff.mp nothing t inTail
    simp [pick, isEquals] at picked
  have ofTail : marked .localName .equals (word :: vs) = [] := by
    rw [marked_cons_of_ne (by simp [isWord.1]), marked_eq_nil unmarked]
  simp only [List.append_assoc, List.singleton_append]
  cases name : l.name with
  | none =>
    rw [name] at isResult
    obtain rfl := (Language.mem_one _).mp isResult
    simp [resultsIn, ofTail]
  | some n =>
    rw [name] at isResult
    obtain ⟨_, ⟨t, ⟨class_, rfl⟩, rfl⟩, _, ⟨e, isEquals, rfl⟩, rfl⟩ := isResult
    have isEquals : e.kind = .equals := isEquals
    simp only [resultsIn, List.cons_append, List.nil_append]
    rw [marked_pair class_ isEquals, marked_cons_of_ne (by simp [isEquals]), ofTail]
    rfl

section Remainders

variable {labels : List String} {ls : List (Phrase.Line Operand)}
    {ps : List (Phrase.Paragraph Operand)} {ts : List Token}

/-- In a body that is read, the local names in front of an equals sign are those of the results. -/
theorem Remainder.results (remainder : Remainder Operand.Reads labels ls ps ts) :
    ∃ body close, ts = body ++ [close] ∧ Open body ∧ close.kind = .closeBrace ∧
      (resultsIn body).map Token.text =
        (ls ++ ps.flatMap Phrase.Paragraph.lines).filterMap Phrase.Line.name := by
  induction remainder with
  | @close t brace => exact ⟨[], t, rfl, open_nil, brace, rfl⟩
  | @label p ps t u us isLabel isColon rest ih =>
    obtain ⟨body, close, rfl, opened, closes, names⟩ := ih
    refine ⟨t :: u :: body, close, rfl, ?_, closes, ?_⟩
    · simp [open_cons, isLabel.1, isColon, opened]
    · rw [resultsIn, marked_cons_of_ne (by simp [isLabel.1]), marked_cons_of_ne (by simp [isColon])]
      simpa [resultsIn] using names
  | @line l ls ps us vs isLine rest ih =>
    obtain ⟨body, close, rfl, opened, closes, names⟩ := ih
    have plain := plain_of_mem_line (fun v t read => ⟨v, read⟩) isLine
    have apart : nextKind body ≠ some .equals := by
      have boundary : nextKind (body ++ [close] ++ []) ≠ some .equals :=
        (rest.boundary []).nextKind_ne (by decide) (by decide) (by decide)
      cases body with
      | nil => simp [nextKind]
      | cons b body => simpa [nextKind] using boundary
    refine ⟨us ++ body, close, by simp, ?_, closes, ?_⟩
    · exact open_append.mpr ⟨fun t mem => (plain t mem).2, opened⟩
    · have ofLine := resultsIn_of_mem_line isLine
      rw [resultsIn] at ofLine names ⊢
      rw [marked_append apart, List.map_append, ofLine, names, List.cons_append]
      cases name : l.name <;> simp [name]

/-- Behind the mnemonic of an instruction, the local names are those that it uses, in the order of
the text. -/
theorem localNames_of_mem_tail {x : Instruction Operand}
    (mem : ts ∈ Phrase.tail Operand.Reads labels x) :
    ts.filter (fun t => decide (t.kind = .localName)) =
      x.written.filterMap Operand.localToken? := by
  let pick := Option.guard fun t : Token => decide (t.kind = .localName)
  have frame (t : Token) (frame : t.kind.isFrame = true) : pick t = none := by
    have other : t.kind ≠ .localName := fun class_ => by simp [class_, TokenKind.isFrame] at frame
    simp [pick, other]
  have spelled (o : Operand) (t : Token) (read : o.Reads t) : pick t = o.localToken? := by
    unfold Operand.Reads Operand.ofToken at read
    split at read
    · next class_ =>
      cases read
      simp [pick, class_, Operand.localToken?]
    · next class_ =>
      cases read
      simp [pick, class_, Operand.localToken?]
    · next class_ =>
      split at read <;> cases read
      simp [pick, class_, Operand.localToken?]
    · cases read
  rw [← List.filterMap_eq_filter]
  exact Phrase.picks_tail frame spelled labels x ts mem

theorem mem_of_mem_line {l : Phrase.Line Operand} (mem : ts ∈ Phrase.line Operand.Reads labels l)
    {t : Token} (used : .localName t ∈ l.instruction.written) : t ∈ ts ∧ t.kind = .localName := by
  obtain ⟨front, -, vs, isTail, rfl⟩ := mem
  have found : t ∈ vs.filter fun t => decide (t.kind = .localName) := by
    rw [localNames_of_mem_tail isTail]
    exact List.mem_filterMap.mpr ⟨_, used, rfl⟩
  obtain ⟨inTail, class_⟩ := List.mem_filter.mp found
  exact ⟨List.mem_append_right front inTail, of_decide_eq_true class_⟩

/-- The local names that a body uses are among its tokens. -/
theorem Remainder.mem_of_use (remainder : Remainder Operand.Reads labels ls ps ts) {t : Token}
    {l : Phrase.Line Operand} (mem : l ∈ ls ++ ps.flatMap Phrase.Paragraph.lines)
    (used : .localName t ∈ l.instruction.written) : t ∈ ts ∧ t.kind = .localName := by
  induction remainder with
  | close brace => simp at mem
  | @label p ps a b us isLabel isColon rest ih =>
    obtain ⟨inRest, class_⟩ := ih (by simpa using mem)
    exact ⟨List.mem_cons_of_mem a (List.mem_cons_of_mem b inRest), class_⟩
  | @line first ls ps us vs isLine rest ih =>
    rcases List.mem_cons.mp mem with rfl | later
    · obtain ⟨inLine, class_⟩ := mem_of_mem_line isLine used
      exact ⟨List.mem_append_left vs inLine, class_⟩
    · obtain ⟨inRest, class_⟩ := ih later
      exact ⟨List.mem_append_right us inRest, class_⟩

end Remainders

/-! ## The head of a function -/

/-- The arguments in the head of a function, which has no other local names. -/
def argumentsIn (head : List Token) : List Token :=
  head.filter fun t => decide (t.kind = .localName)

/-- What is read of the head of a function has the arguments in the order of the text. -/
theorem functionHead_reads {rest inner arguments : List Token} {name : Token}
    (read : functionHead rest = .ok ((name, arguments), inner)) :
    ∃ head, head ∈ Phrase.head name.text (arguments.map Token.text) ∧ rest = head ++ inner ∧
      argumentsIn head = arguments := by
  let pick := Option.guard fun t : Token => decide (t.kind = .localName)
  have unpicked {t : Token} (other : t.kind ≠ .localName) : pick t = none := by simp [pick, other]
  have frame (t : Token) (frame : t.kind.isFrame = true) : pick t = none :=
    unpicked fun class_ => by simp [class_, TokenKind.isFrame] at frame
  have exactly : Sound (token .localName "argument name") fun a =>
      Phrase.single fun t => t.kind = .localName ∧ t = a := by
    intro rest a after read
    obtain ⟨class_, rfl⟩ := token_eq_ok.mp read
    exact ⟨[a], ⟨a, ⟨class_, rfl⟩, rfl⟩, rfl⟩
  have picks : Sound functionHead fun head => {ts | ts.filterMap pick = head.2} := by
    refine (sound_of_eq_ok keyword_eq_ok).bind fun _ isFn =>
      (sound_mark _ _).bind fun name isName => (sound_mark _ _).bind fun _ isOpen =>
        (sound_parenList exactly).bind fun arguments areArguments =>
          (sound_mark _ _).bind fun _ isBrace => soundAfter_pure ?_
    have ofMark {kind : TokenKind} (other : kind ≠ .localName) :
        Phrase.Picks pick (Phrase.mark kind) [] :=
      Phrase.picks_single fun t class_ => unpicked (class_ ▸ other)
    have ofArgument (a : Token) :
        Phrase.Picks pick (Phrase.single fun t => t.kind = .localName ∧ t = a) [a] := by
      rintro _ ⟨t, ⟨class_, rfl⟩, rfl⟩
      simp [pick, class_]
    have ofArguments :=
      ((Phrase.picks_listed frame fun a (_ : a ∈ arguments) => ofArgument a).mul_frame
        (ofMark (by decide))) _ areArguments
    have ofFn := Phrase.picks_spelled frame rfl _ _ isFn
    have ofName := ofMark (by decide) _ isName
    have ofOpen := ofMark (by decide) _ isOpen
    have ofBrace := ofMark (by decide) _ isBrace
    show List.filterMap pick _ = arguments
    simp only [List.nil_append, List.filterMap_append, ofFn, ofName, ofOpen, ofArguments, ofBrace,
      List.append_nil, List.flatMap_singleton']
  obtain ⟨head, isHead, rfl⟩ := sound_functionHead read
  obtain ⟨head', found, same⟩ := picks read
  obtain rfl := List.append_cancel_right same
  refine ⟨head, isHead, rfl, ?_⟩
  rw [argumentsIn, ← List.filterMap_eq_filter]
  exact found

theorem faults_functionHead (labels : List String) : Faults labels functionHead :=
  (faults_keyword _).bind fun _ => (faults_token (by decide) _).bind fun _ =>
    (faults_token (by decide) _).bind fun _ => (faults_parenList (faults_token (by decide) _)).bind
      fun _ => (faults_token (by decide) _).bind fun _ => faults_pure _

/-- A token that repeats the text of another stands behind it. -/
theorem exists_earlier {seen : List String} {ts : List Token} {t : Token}
    (again : firstRepeated? seen ts = some t) :
    (t ∈ ts ∧ t.text ∈ seen) ∨ ∃ u, [u, t].Sublist ts ∧ u.text = t.text := by
  induction ts generalizing seen with
  | nil => cases again
  | cons a ts ih =>
    rw [firstRepeated?] at again
    split at again
    · next known =>
      cases again
      exact .inl ⟨List.mem_cons_self, known⟩
    · rcases ih again with ⟨mem, known⟩ | ⟨u, both, same⟩
      · rcases List.mem_cons.mp known with same | known
        · exact .inr ⟨a, (List.singleton_sublist.mpr mem).cons_cons a, same.symm⟩
        · exact .inl ⟨List.mem_cons_of_mem a mem, known⟩
      · exact .inr ⟨u, both.cons a, same⟩

/-! ## Functions that cannot be read -/

/-- The ways in which reading a function fails, in the order in which they are found. -/
inductive FunctionFails (rest : List Token) : Failure → Prop where
  | head {failure : Failure} (failed : functionHead rest = .error failure) :
      FunctionFails rest failure
  | argument {name t : Token} {arguments inner : List Token}
    (readHead : functionHead rest = .ok ((name, arguments), inner))
    (again : firstRepeated? [] arguments = some t) :
    FunctionFails rest ⟨.redefinition t.text, some t, inner⟩
  | label {name t : Token} {arguments inner : List Token}
    (readHead : functionHead rest = .ok ((name, arguments), inner))
    (again : firstRepeated? [] (labelTokens inner) = some t) :
    FunctionFails rest ⟨.duplicateBlock t.text, some t, inner⟩
  | body {name : Token} {arguments inner : List Token} {failure : Failure}
    (readHead : functionHead rest = .ok ((name, arguments), inner))
    (failed : body ((labelTokens inner).map Token.text) (arguments.map Token.text) false inner =
      .error failure) : FunctionFails rest failure
  | use {name t : Token} {arguments inner after : List Token} {statements : List Statement}
    {sections : List Section} (readHead : functionHead rest = .ok ((name, arguments), inner))
    (distinct : firstRepeated? [] arguments = none)
    (distinctLabels : firstRepeated? [] (labelTokens inner) = none)
    (readBody : body ((labelTokens inner).map Token.text) (arguments.map Token.text) false inner =
      .ok ((statements, sections), after))
    (unknown : Draft.undefinedUse? ⟨name.text, arguments.map Token.text, sections⟩ = some t) :
    FunctionFails rest ⟨.undefinedValue t.text, some t, after⟩

/-- What is read of a function behind its head. -/
def functionTail (name : Token) (arguments : List Token) : Parser Func := do
  match firstRepeated? [] arguments with
  | some t => failAt t (.redefinition t.text)
  | none =>
    let labels := labelTokens (← get)
    match firstRepeated? [] labels with
    | some t => failAt t (.duplicateBlock t.text)
    | none =>
      let (_, sections) ← body (labels.map Token.text) (arguments.map Token.text) false
      let draft : Draft := ⟨name.text, arguments.map Token.text, sections⟩
      match draft.undefinedUse? with
      | some t => failAt t (.undefinedValue t.text)
      | none => pure draft.toFunc

theorem function_eq_bind : function = functionHead >>= fun head => functionTail head.1 head.2 := by
  simp only [functionHead, bind_assoc, pure_bind]
  rfl

theorem functionFails_of_error {rest : List Token} {failure : Failure}
    (failed : function rest = .error failure) : FunctionFails rest failure := by
  rw [function_eq_bind] at failed
  rcases bind_eq_error.mp failed with failedHead | ⟨⟨name, arguments⟩, inner, readHead, failedRest⟩
  · exact .head failedHead
  unfold functionTail at failedRest
  cases again : firstRepeated? [] arguments with
  | some t =>
    simp only [again] at failedRest
    cases failedRest
    exact .argument readHead again
  | none =>
    simp only [again] at failedRest
    rcases bind_eq_error.mp failedRest with failedState | ⟨_, _, readState, failedInner⟩
    · cases failedState
    cases readState
    cases againLabel : firstRepeated? [] (labelTokens inner) with
    | some t =>
      simp only [againLabel] at failedInner
      cases failedInner
      exact .label readHead againLabel
    | none =>
      simp only [againLabel] at failedInner
      rcases bind_eq_error.mp failedInner with
        failedBody | ⟨⟨statements, sections⟩, after, readBody, failedUse⟩
      · exact .body readHead failedBody
      cases unknown : Draft.undefinedUse? ⟨name.text, arguments.map Token.text, sections⟩ with
      | none =>
        simp only [unknown] at failedUse
        cases failedUse
      | some t =>
        simp only [unknown] at failedUse
        cases failedUse
        exact .use readHead again againLabel readBody unknown

/-- Where functions cannot be read, those in front of some function can, and that one cannot. -/
theorem exists_failing {ts : List Token} {failure : Failure}
    (failed : functions ts = .error failure) :
    ∃ before fs rest, functions before = .ok fs ∧ ts = before ++ rest ∧ rest ≠ [] ∧
      function rest = .error failure := by
  fun_induction functions ts with
  | case1 => cases failed
  | case2 t tail e failedFirst =>
    cases failed
    exact ⟨[], [], t :: tail, by rw [functions], rfl, by simp, failedFirst⟩
  | case3 t tail f after readFirst e failedMore ih =>
    cases failed
    obtain ⟨before, fs, rest, readBefore, rfl, nonempty, failedNext⟩ := ih failedMore
    obtain ⟨us, renders, whole⟩ := sound_function readFirst
    have one : functions us = .ok [f] := by
      rw [functions_eq_ok, List.map_singleton, List.prod_singleton]
      exact renders
    refine ⟨us ++ before, f :: fs, rest, ?_, by rw [whole, List.append_assoc], nonempty, failedNext⟩
    rw [functions_append one, readBefore]
    rfl
  | case4 => cases failed

/-! ## True reports -/

/-- The text that an error speaks of. -/
def ParseError.text? : ParseError → Option String
  | lexical _ | expected _ | instructionOutsideBlock => none
  | unknownInstruction text | unknownType text | unknownPredicate text | numberOutOfRange text
  | undefinedValue text | undefinedBlock text | redefinition text | duplicateBlock text
  | missingResult text | unexpectedResult text => some text

/-- The tokens of a function that define a local name, in the order of the text. -/
def definitionsIn (head body : List Token) : List Token := argumentsIn head ++ resultsIn body

/-- Some tokens hold a function behind others that can be read: its head, and its body, which goes
on up to a closing brace or to the end. -/
structure Excerpt (tokens head body : List Token) : Prop where
  isHead : ∃ name arguments, head ∈ Phrase.head name arguments
  opened : Open body
  placed : ∃ before fs after, functions before = .ok fs ∧ tokens = before ++ head ++ body ++ after ∧
    ∀ t ∈ after.head?, t.kind = .closeBrace

/-- What an error at a token says about the names of a function is true of the function. -/
def ParseError.TrueOf (tokens : List Token) (t : Token) : ParseError → Prop
  | undefinedValue name => ∃ head body, Excerpt tokens head body ∧ t ∈ body ∧
      name ∉ (definitionsIn head body).map Token.text
  | redefinition name => ∃ head body u, Excerpt tokens head body ∧
      [u, t].Sublist (definitionsIn head body) ∧ u.text = name
  | undefinedBlock label => ∃ head body, Excerpt tokens head body ∧ t ∈ body ∧
      label ∉ (labelsIn body).map Token.text
  | duplicateBlock label => ∃ head body u, Excerpt tokens head body ∧
      [u, t].Sublist (labelsIn body) ∧ u.text = label
  | _ => True

/-- An error is reported at one of the tokens, which has the text that the error speaks of. -/
structure Reports (tokens : List Token) (t : Token) (e : ParseError) : Prop where
  known : t ∈ tokens
  parsing : ∀ l, e ≠ .lexical l
  names : ∀ text ∈ e.text?, t.text = text
  true_ : e.TrueOf tokens t

theorem Complaint.reports {labels : List String} {t : Token} {e : ParseError}
    (complaint : Complaint labels t e) :
    (∀ l, e ≠ .lexical l) ∧ ∀ text ∈ e.text?, t.text = text := by
  cases e <;> simp_all [Complaint, ParseError.text?]

theorem BodyComplaint.reports {labels bound : List String} {passed left : List Token} {t : Token}
    {e : ParseError} (complaint : BodyComplaint labels bound passed t left e) :
    (∀ l, e ≠ .lexical l) ∧ ∀ text ∈ e.text?, t.text = text := by
  cases e <;> simp_all [BodyComplaint, Complaint, ParseError.text?]

/-- A use that is reported as undefined is one of the draft, which does not define its name. -/
theorem Draft.undefinedUse?_eq_some {d : Draft} {t : Token} (unknown : d.undefinedUse? = some t) :
    (∃ s ∈ d.statements, .localName t ∈ s.instruction.written) ∧ t.text ∉ d.arguments ∧
      t.text ∉ d.statements.filterMap Statement.resultName := by
  have used := Draft.mem_localUses.mp (List.mem_of_find?_eq_some unknown)
  have undefined : (d.scope.defines t.text) = false := by simpa using List.find?_some unknown
  obtain ⟨noArgument, noResult⟩ := Bool.or_eq_false_iff.mp undefined
  refine ⟨List.mem_flatMap.mp used, by simpa [Draft.scope] using noArgument, fun isResult => ?_⟩
  obtain ⟨s, isStatement, named⟩ := List.mem_filterMap.mp isResult
  have known : some t.text ∈ d.scope.results := named ▸ List.mem_map_of_mem isStatement
  simp [known] at noResult

section Functions

variable {before rest arguments inner : List Token} {fs : List Func} {name t : Token}

/-- A function whose head can be read is an excerpt. -/
theorem exists_excerpt (readBefore : functions before = .ok fs)
    (readHead : functionHead rest = .ok ((name, arguments), inner)) :
    ∃ head body after, rest = head ++ inner ∧ argumentsIn head = arguments ∧ inner = body ++ after ∧
      (∀ t ∈ after.head?, t.kind = .closeBrace) ∧ Excerpt (before ++ rest) head body := by
  obtain ⟨head, isHead, rfl, areArguments⟩ := functionHead_reads readHead
  obtain ⟨body, after, rfl, opened, closed⟩ := exists_body inner
  exact ⟨head, body, after, rfl, areArguments, rfl, closed, ⟨_, _, isHead⟩, opened,
    before, fs, after, readBefore, by simp, closed⟩

theorem reports_argument (readBefore : functions before = .ok fs)
    (readHead : functionHead rest = .ok ((name, arguments), inner))
    (again : firstRepeated? [] arguments = some t) :
    Reports (before ++ rest) t (.redefinition t.text) := by
  obtain ⟨head, body, after, rfl, rfl, -, -, excerpt⟩ := exists_excerpt readBefore readHead
  rcases exists_earlier again with ⟨-, known⟩ | ⟨u, both, same⟩
  · cases known
  have mem : t ∈ head := List.mem_of_mem_filter (both.subset (by simp))
  exact {
    known := by simp [mem]
    parsing := by simp
    names := by simp [ParseError.text?]
    true_ := ⟨head, body, u, excerpt, both.trans (List.sublist_append_left _ _), same⟩ }

theorem reports_label (readBefore : functions before = .ok fs)
    (readHead : functionHead rest = .ok ((name, arguments), inner))
    (again : firstRepeated? [] (labelTokens inner) = some t) :
    Reports (before ++ rest) t (.duplicateBlock t.text) := by
  obtain ⟨head, body, after, rfl, rfl, rfl, closed, excerpt⟩ := exists_excerpt readBefore readHead
  rw [labelTokens_open excerpt.opened closed] at again
  rcases exists_earlier again with ⟨-, known⟩ | ⟨u, both, same⟩
  · cases known
  have mem : t ∈ body := (marked_sublist body).subset (both.subset (by simp))
  exact {
    known := by simp [mem]
    parsing := by simp
    names := by simp [ParseError.text?]
    true_ := ⟨head, body, u, excerpt, both, same⟩ }

theorem reports_body (readBefore : functions before = .ok fs)
    (readHead : functionHead rest = .ok ((name, arguments), inner)) {passed left : List Token}
    (opened : Open passed) (whole : inner = passed ++ t :: left) {e : ParseError}
    (said : BodyComplaint ((labelTokens inner).map Token.text) (arguments.map Token.text) passed t
      left e) :
    Reports (before ++ rest) t e := by
  obtain ⟨head, body, after, rfl, rfl, rfl, closed, excerpt⟩ := exists_excerpt readBefore readHead
  rw [labelTokens_open excerpt.opened closed] at said
  refine ⟨by simp [whole], said.reports.1, said.reports.2, ?_⟩
  -- The token at fault belongs to the body if it is no closing brace.
  have split (notClose : t.kind ≠ .closeBrace) :
      ∃ more, body = passed ++ t :: more ∧ left = more ++ after := by
    have openToken : Open (passed ++ [t]) :=
      open_append.mpr ⟨opened, open_cons.mpr ⟨notClose, open_nil⟩⟩
    obtain ⟨more, isBody, isLeft⟩ := body_eq_append closed openToken (by simpa using whole)
    exact ⟨more, by simpa using isBody, isLeft⟩
  cases e with
  | undefinedBlock label =>
    obtain ⟨-, notClose, unknown⟩ := said
    obtain ⟨more, rfl, -⟩ := split notClose
    exact ⟨head, _, excerpt, by simp, unknown⟩
  | redefinition n =>
    obtain ⟨-, class_, next, known⟩ := said
    obtain ⟨more, rfl, rfl⟩ := split (by simp [class_])
    have last : t ∈ resultsIn (t :: more) := by
      cases more with
      | nil =>
        obtain ⟨u, first, isEquals⟩ := Option.map_eq_some_iff.mp next
        rw [closed u first] at isEquals
        cases isEquals
      | cons u more =>
        have isEquals : u.kind = .equals := by simpa [nextKind] using next
        rw [resultsIn, marked_pair class_ isEquals]
        exact List.mem_cons_self
    rw [← List.map_append] at known
    obtain ⟨u, earlier, same⟩ := List.mem_map.mp known
    have parts : (resultsIn passed ++ resultsIn (t :: more)).Sublist
        (resultsIn (passed ++ t :: more)) := marked_append_sublist _ _
    have both := (List.singleton_sublist.mpr earlier).append (List.singleton_sublist.mpr last)
    rw [List.append_assoc] at both
    exact ⟨head, _, u, excerpt, both.trans (parts.append_left _), same⟩
  | lexical => cases said
  | undefinedValue => cases said
  | duplicateBlock => cases said
  | _ => trivial

theorem reports_use (readBefore : functions before = .ok fs)
    (readHead : functionHead rest = .ok ((name, arguments), inner))
    (distinct : firstRepeated? [] arguments = none)
    (distinctLabels : firstRepeated? [] (labelTokens inner) = none) {statements : List Statement}
    {sections : List Section} {after : List Token}
    (readBody : body ((labelTokens inner).map Token.text) (arguments.map Token.text) false inner =
      .ok ((statements, sections), after))
    (unknown : Draft.undefinedUse? ⟨name.text, arguments.map Token.text, sections⟩ = some t) :
    Reports (before ++ rest) t (.undefinedValue t.text) := by
  obtain ⟨head, isHead, rfl, rfl⟩ := functionHead_reads readHead
  obtain ⟨⟨ts, remainder, rfl⟩, -, noStatements⟩ := sound_body
    (firstRepeated?_eq_none.mp distinctLabels).1 readBody (firstRepeated?_eq_none.mp distinct).1
  obtain rfl := noStatements rfl
  obtain ⟨body, close, rfl, opened, closes, names⟩ := remainder.results
  obtain ⟨⟨s, isStatement, isWritten⟩, noArgument, noResult⟩ := Draft.undefinedUse?_eq_some unknown
  have lines : ([] ++ (sections.map Section.paragraph).flatMap Phrase.Paragraph.lines) =
      (sections.flatMap Section.statements).map Statement.line := by
    rw [List.nil_append, List.flatMap_map, List.map_flatMap]
    rfl
  have isLine := List.mem_map_of_mem (f := Statement.line) isStatement
  obtain ⟨inBody, class_⟩ := remainder.mem_of_use (lines ▸ isLine) isWritten
  have mem : t ∈ body := by
    rcases List.mem_append.mp inBody with mem | last
    · exact mem
    · rw [List.mem_singleton.mp last, closes] at class_
      cases class_
  have unbound : t.text ∉ (definitionsIn head body).map Token.text := by
    rw [List.map_nil, lines, List.filterMap_map] at names
    rw [definitionsIn, List.map_append, List.mem_append, names]
    exact not_or_intro noArgument noResult
  exact {
    known := by simp [mem]
    parsing := by simp
    names := by simp [ParseError.text?]
    true_ := ⟨head, body, ⟨⟨_, _, isHead⟩, opened, before, fs, close :: after, readBefore, by simp,
      by simpa using closes⟩, mem, unbound⟩ }

end Functions

/-- A function that cannot be read reports one of its tokens. -/
theorem reports_of_functionFails {before rest : List Token} {fs : List Func}
    (readBefore : functions before = .ok fs) {failure : Failure}
    (fails : FunctionFails rest failure) :
    (failure.token = none ∧ ∃ what, failure.error = .expected what) ∨
      ∃ t, failure.token = some t ∧ Reports (before ++ rest) t failure.error := by
  cases fails with
  | head failed =>
    have blames (labels : List String) := (faults_functionHead labels).fails failed
    cases blames [] with
    | atEnd what unread => exact .inl ⟨rfl, what, rfl⟩
    | @atToken passed left unread t e opened whole said =>
      refine .inr ⟨t, rfl, by simp [whole], said.reports.1, said.reports.2, ?_⟩
      cases e with
      | undefinedBlock label =>
        -- The head of a function fails in the same way whatever the labels are.
        cases blames [label] with
        | atToken _ _ said => exact absurd List.mem_cons_self said.2.2
      | lexical => cases said
      | undefinedValue => cases said
      | duplicateBlock => cases said
      | redefinition => cases said
      | _ => trivial
  | argument readHead again => exact .inr ⟨_, rfl, reports_argument readBefore readHead again⟩
  | label readHead again => exact .inr ⟨_, rfl, reports_label readBefore readHead again⟩
  | body readHead failed =>
    cases blames_body failed with
    | atEnd what unread => exact .inl ⟨rfl, what, rfl⟩
    | atToken opened whole said =>
      exact .inr ⟨_, rfl, reports_body readBefore readHead opened whole said⟩
  | use readHead distinct distinctLabels readBody unknown =>
    exact .inr ⟨_, rfl, reports_use readBefore readHead distinct distinctLabels readBody unknown⟩

/-- Functions that cannot be read report one of the tokens, the last one if there is none to
blame. -/
theorem exists_report {tokens : List Token} {failure : Failure}
    (failed : functions tokens = .error failure) :
    ∃ t, (failure.located tokens).position = t.position ∧ Reports tokens t failure.error := by
  obtain ⟨before, fs, rest, readBefore, rfl, nonempty, failedNext⟩ := exists_failing failed
  rcases reports_of_functionFails readBefore (functionFails_of_error failedNext) with
    ⟨atEnd, what, error⟩ | ⟨t, atToken, reports⟩
  · have nonempty := List.append_ne_nil_of_right_ne_nil before nonempty
    have last := List.getLast?_eq_some_getLast nonempty
    refine ⟨(before ++ rest).getLast nonempty, by simp only [Failure.located, atEnd, last]; rfl, ?_⟩
    rw [error]
    exact ⟨List.getLast_mem nonempty, by simp, by simp [ParseError.text?], trivial⟩
  · exact ⟨t, by simp [Failure.located, atToken], reports⟩

/-- **Errors point at what they speak of, and speak the truth.** A lexical error is reported where
the characters at fault stand in the source. Any other error is reported where a token of the source
stands, which has the text that the error speaks of; and what it says about the names of a function
is true. -/
theorem parse_error_reports {source : String} {error : Located ParseError}
    (failed : parse source = .error error) :
    match error.value with
    | .lexical e => LexError.StandsIn source.toList ⟨e, error.position⟩
    | e => ∃ tokens t, tokenize source.toList = .ok tokens ∧ t ∈ tokens ∧ t.StandsIn source.toList ∧
        error.position = t.position ∧ (∀ text ∈ e.text?, t.text = text) ∧ e.TrueOf tokens t := by
  unfold parse ofChars at failed
  cases scanned : tokenize source.toList with
  | error e =>
    simp only [scanned] at failed
    cases failed
    exact standsIn_of_failed (exact_ofChars source.toList) scanned
  | ok tokens =>
    simp only [scanned, ofTokens] at failed
    cases read : functions tokens with
    | ok fs => simp [read] at failed
    | error failure =>
      simp only [read] at failed
      cases failed
      obtain ⟨t, here, reports⟩ := exists_report read
      have stands := standsIn_of_tokens (exact_ofChars source.toList) scanned t reports.known
      split
      · next e isLexical => exact absurd isLexical (reports.parsing e)
      · exact ⟨tokens, t, rfl, reports.known, stands, here, reports.names, reports.true_⟩

/-- A body that defines a result twice. -/
def twiceDefined : String :=
  "fn @f(%a) \x7b\ne: ; sums\n  %b = add %a, 1\n  %b = add %a, 2\n\x7d\n"

theorem parse_error_reports_twiceDefined :
    parse twiceDefined = .error ⟨.redefinition "b", ⟨3, 2⟩⟩ ∧
      ∃ tokens t, tokenize twiceDefined.toList = .ok tokens ∧ t ∈ tokens ∧
        t.StandsIn twiceDefined.toList ∧ ⟨3, 2⟩ = t.position ∧ (∀ text ∈ some "b", t.text = text) ∧
        ParseError.TrueOf tokens t (.redefinition "b") := by
  have failed : parse twiceDefined = .error ⟨.redefinition "b", ⟨3, 2⟩⟩ := by decide +kernel
  exact ⟨failed, parse_error_reports failed⟩

end BlockReuse.Source
