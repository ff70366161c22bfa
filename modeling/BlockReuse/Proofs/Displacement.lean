import BlockReuse.Proofs.Expressions
import BlockReuse.Source.Reading

/-!
# Displacement — reading does not look at positions

The position of a token takes part in nothing but the place where an error is reported. Displace all
tokens of a list by any function of their positions: every parser then answers what it answered
before, with the tokens in its answer displaced, and where it failed it fails with the same error at
the displaced token (`Displaces`). The parsers are made of others, so that the law goes from the
parts to the whole (`Displaces.bind`), up to whole lists of functions, in whose answers there are no
tokens left (`functions_displace`).
-/

set_option autoImplicit false

namespace BlockReuse.Source

open BlockReuse.Source.Parser

/-! ## Displaced tokens, and what holds them -/

/-- The token at another position. -/
def Token.displace (g : Position → Position) (t : Token) : Token :=
  { t with position := g t.position }

@[simp]
theorem Token.kind_displace (g : Position → Position) (t : Token) :
    (t.displace g).kind = t.kind := rfl

@[simp]
theorem Token.text_displace (g : Position → Position) (t : Token) :
    (t.displace g).text = t.text := rfl

@[simp]
theorem Token.position_displace (g : Position → Position) (t : Token) :
    (t.displace g).position = g t.position := rfl

@[simp]
theorem Token.isWord_displace (g : Position → Position) (t : Token) (word : String) :
    (t.displace g).isWord word = t.isWord word := rfl

def Operand.displace (g : Position → Position) : Operand → Operand
  | localName token => localName (token.displace g)
  | globalName name => globalName name
  | constant value => constant value

def Statement.displace (g : Position → Position) (s : Statement) : Statement :=
  ⟨s.result.map (Token.displace g), s.mnemonic.displace g, s.instruction.map (Operand.displace g)⟩

def Section.displace (g : Position → Position) (s : Section) : Section :=
  ⟨s.label, s.statements.map (Statement.displace g)⟩

/-- Something at another position. -/
def Located.displace {α : Type} (g : Position → Position) (x : Located α) : Located α :=
  ⟨x.value, g x.position⟩

def Failure.displace (g : Position → Position) (f : Failure) : Failure :=
  ⟨f.error, f.token.map (Token.displace g), f.rest.map (Token.displace g)⟩

@[simp]
theorem Statement.resultName_displace (g : Position → Position) (s : Statement) :
    (s.displace g).resultName = s.resultName := by
  cases result : s.result <;> simp [resultName, displace, result]

/-! ## Parsers -/

variable {α β : Type} {g : Position → Position}

/-- The outcome of a parser when all tokens are displaced, `h` saying what becomes of its answer. -/
def displaceOutcome (g : Position → Position) (h : α → β) :
    Except Failure (α × List Token) → Except Failure (β × List Token)
  | .ok (a, after) => .ok (h a, after.map (Token.displace g))
  | .error failure => .error (failure.displace g)

/-- On displaced tokens, `p'` has the outcome of `p`, displaced. -/
def Displaces (g : Position → Position) (h : α → β) (p : Parser α) (p' : Parser β) : Prop :=
  ∀ rest : List Token, p' (rest.map (Token.displace g)) = displaceOutcome g h (p rest)

theorem Displaces.bind {γ δ : Type} {h : α → β} {k : γ → δ} {p : Parser α} {p' : Parser β}
    {q : α → Parser γ} {q' : β → Parser δ} (first : Displaces g h p p')
    (next : ∀ a, Displaces g k (q a) (q' (h a))) : Displaces g k (p >>= q) (p' >>= q') := by
  intro rest
  have read := first rest
  cases outcome : p rest with
  | error failure =>
    rw [outcome] at read
    simp [Bind.bind, StateT.bind, Except.bind, read, outcome, displaceOutcome]
  | ok r =>
    obtain ⟨a, middle⟩ := r
    rw [outcome] at read
    simpa [Bind.bind, StateT.bind, Except.bind, read, outcome, displaceOutcome] using next a middle

theorem displaces_pure (h : α → β) (a : α) : Displaces g h (pure a) (pure (h a)) := fun _ => rfl

theorem displaces_failAt (h : α → β) (t : Token) (e : ParseError) :
    Displaces g h (failAt t e) (failAt (t.displace g) e) := fun _ => rfl

theorem displaces_failHere (h : α → β) (e : ParseError) :
    Displaces g h (failHere e) (failHere e) := by
  intro rest
  cases rest <;> rfl

theorem displaces_nextIs (kind : TokenKind) : Displaces g id (nextIs kind) (nextIs kind) := by
  intro rest
  cases rest <;> rfl

theorem displaces_token (kind : TokenKind) (what : String) :
    Displaces g (Token.displace g) (token kind what) (token kind what) := by
  intro rest
  cases rest with
  | nil => rfl
  | cons t rest =>
    by_cases class_ : t.kind = kind <;>
      simp [token, class_, displaceOutcome, Failure.displace]

theorem displaces_keyword (word : String) : Displaces g id (keyword word) (keyword word) := by
  intro rest
  cases rest with
  | nil => rfl
  | cons t rest =>
    cases is : t.isWord word <;> simp [keyword, is, displaceOutcome, Failure.displace]

theorem displaces_optionalKeyword (word : String) :
    Displaces g id (optionalKeyword word) (optionalKeyword word) := by
  intro rest
  cases rest with
  | nil => rfl
  | cons t rest =>
    cases is : t.isWord word <;> simp [optionalKeyword, is, displaceOutcome]

theorem displaces_operand : Displaces g (Operand.displace g) operand operand := by
  intro rest
  cases rest with
  | nil => rfl
  | cons t rest =>
    have read : Operand.ofToken (t.displace g) = (Operand.ofToken t).map (Operand.displace g) := by
      unfold Operand.ofToken
      simp only [Token.kind_displace, Token.text_displace]
      split
      · rfl
      · rfl
      · split <;> rfl
      · rfl
    simp only [List.map_cons, operand, read]
    cases Operand.ofToken t <;> rfl

theorem displaces_typeName : Displaces g id typeName typeName := by
  refine (displaces_token _ _).bind fun t => ?_
  simp only [Token.text_displace]
  cases IrType.ofText? t.text with
  | some type => exact displaces_pure id type
  | none => exact displaces_failAt _ _ _

theorem displaces_blockRef (labels : List String) :
    Displaces g id (blockRef labels) (blockRef labels) := by
  refine (displaces_token _ _).bind fun t => ?_
  by_cases known : t.text ∈ labels
  · simpa [known] using displaces_pure id _
  · simpa [known] using displaces_failAt _ _ _

theorem displaces_predicate (find : String → Option α) :
    Displaces g id (predicate find) (predicate find) := by
  refine (displaces_token _ _).bind fun t => ?_
  simp only [Token.text_displace]
  cases find t.text with
  | some p => exact displaces_pure id p
  | none => exact displaces_failAt _ _ _

theorem displaces_pathStep : Displaces g id pathStep pathStep := by
  refine (displaces_token _ _).bind fun t => ?_
  simp only [Token.text_displace]
  cases Text.decimalBelow? 0x100000000 t.text.toList with
  | some n => exact displaces_pure id _
  | none => exact displaces_failAt _ _ _

/-! ## Lists -/

theorem displaces_afterCommas {h : α → β} {item : Parser α} {item' : Parser β}
    (each : Displaces g h item item') :
    Displaces g (List.map h) (afterCommas item) (afterCommas item') := by
  have within (limit : Nat) :
      Displaces g (List.map h) (afterCommasWithin item limit) (afterCommasWithin item' limit) := by
    induction limit with
    | zero => exact displaces_pure _ _
    | succ limit ih =>
      refine (displaces_nextIs _).bind fun comes => ?_
      cases comes with
      | true =>
        exact (displaces_token _ _).bind fun _ => each.bind fun a => ih.bind fun more =>
          displaces_pure _ (a :: more)
      | false => exact displaces_pure _ _
  intro rest
  simp only [afterCommas, List.length_map]
  exact within rest.length rest

theorem displaces_parenList {h : α → β} {item : Parser α} {item' : Parser β}
    (each : Displaces g h item item') :
    Displaces g (List.map h) (parenList item) (parenList item') := by
  refine (displaces_nextIs _).bind fun closes => ?_
  cases closes with
  | true => exact (displaces_token _ _).bind fun _ => displaces_pure _ _
  | false =>
    exact each.bind fun first => (displaces_afterCommas each).bind fun more =>
      (displaces_token _ _).bind fun _ => displaces_pure _ (first :: more)

theorem displaces_operands2 :
    Displaces g (Prod.map (Operand.displace g) (Operand.displace g)) operands2 operands2 :=
  displaces_operand.bind fun a => (displaces_token _ _).bind fun _ =>
    displaces_operand.bind fun b => displaces_pure _ (a, b)

theorem displaces_operands3 :
    Displaces g (Prod.map (Operand.displace g) (Prod.map (Operand.displace g) (Operand.displace g)))
      operands3 operands3 :=
  displaces_operand.bind fun a => (displaces_token _ _).bind fun _ =>
    displaces_operand.bind fun b => (displaces_token _ _).bind fun _ =>
      displaces_operand.bind fun c => displaces_pure _ (a, b, c)

theorem displaces_path : Displaces g id path path := by
  refine (displaces_afterCommas displaces_pathStep).bind fun steps => ?_
  rw [List.map_id]
  split
  · exact displaces_failHere _ _
  · exact displaces_pure id steps

theorem displaces_incoming (labels : List String) :
    Displaces g (Prod.map id (Operand.displace g)) (incoming labels) (incoming labels) :=
  (displaces_token _ _).bind fun _ => (displaces_blockRef labels).bind fun block =>
    (displaces_token _ _).bind fun _ => displaces_operand.bind fun value =>
      (displaces_token _ _).bind fun _ => displaces_pure _ (block, value)

theorem displaces_returnsValue : Displaces g id returnsValue returnsValue := by
  intro rest
  cases rest with
  | nil => rfl
  | cons t rest => cases rest <;> rfl

theorem displaces_callEffects : Displaces g id callEffects callEffects := by
  refine (displaces_optionalKeyword _).bind fun isNone => ?_
  cases isNone with
  | true => exact displaces_pure id _
  | false =>
    refine (displaces_optionalKeyword _).bind fun isRead => ?_
    cases isRead <;> exact displaces_pure id _

/-! ## Instructions and statements -/

theorem displaces_instruction (labels : List String) (m : Mnemonic) :
    Displaces g (Instruction.map (Operand.displace g)) (instruction labels m)
      (instruction labels m) := by
  have done (x : Instruction Operand) : Displaces g (Instruction.map (Operand.displace g)) (pure x)
      (pure (x.map (Operand.displace g))) := displaces_pure _ x
  cases m with
  | binary op => exact displaces_operands2.bind fun _ => done (.binary op _ _)
  | cast op =>
    exact displaces_operand.bind fun value => (displaces_keyword _).bind fun _ =>
      displaces_typeName.bind fun target => done (.cast op value target)
  | icmp =>
    exact (displaces_predicate _).bind fun p => displaces_operands2.bind fun _ =>
      done (.compare (.int p) _ _)
  | fcmp =>
    exact (displaces_predicate _).bind fun p => displaces_operands2.bind fun _ =>
      done (.compare (.float p) _ _)
  | extractElement => exact displaces_operands2.bind fun _ => done (.extractElement _ _)
  | insertElement =>
    exact displaces_operands3.bind fun _ => done (.insertElement _ _ _)
  | shuffleVector =>
    exact displaces_operands3.bind fun _ => done (.shuffleVector _ _ _)
  | gep =>
    exact displaces_typeName.bind fun element => displaces_operand.bind fun base =>
      (displaces_afterCommas displaces_operand).bind fun indices =>
        done (.gep element base indices)
  | extractValue =>
    exact displaces_operand.bind fun aggregate => displaces_path.bind fun steps =>
      done (.extractValue aggregate steps)
  | insertValue =>
    exact displaces_operands2.bind fun _ => displaces_path.bind fun steps =>
      done (.insertValue _ _ steps)
  | phi =>
    exact (displaces_incoming labels).bind fun first =>
      (displaces_afterCommas (displaces_incoming labels)).bind fun more =>
        done (.phi (first :: more))
  | select => exact displaces_operands3.bind fun _ => done (.select _ _ _)
  | load =>
    exact (displaces_optionalKeyword _).bind fun isVolatile => displaces_typeName.bind fun type =>
      (displaces_token _ _).bind fun _ => displaces_operand.bind fun pointer =>
        done (.load type pointer isVolatile)
  | store =>
    exact (displaces_optionalKeyword _).bind fun isVolatile => displaces_typeName.bind fun type =>
      displaces_operands2.bind fun _ => done (.store type _ _ isVolatile)
  | alloca => exact displaces_typeName.bind fun type => done (.alloca type)
  | call =>
    exact displaces_callEffects.bind fun effects => displaces_operand.bind fun callee =>
      (displaces_token _ _).bind fun _ => (displaces_parenList displaces_operand).bind
        fun arguments => done (.call callee arguments effects)
  | fence => exact done .fence
  | br =>
    refine (displaces_nextIs _).bind fun named => ?_
    cases named with
    | true =>
      exact (displaces_blockRef labels).bind fun target => done (.branch target)
    | false =>
      exact displaces_operand.bind fun condition => (displaces_token _ _).bind fun _ =>
        (displaces_blockRef labels).bind fun ifTrue => (displaces_token _ _).bind fun _ =>
          (displaces_blockRef labels).bind fun ifFalse =>
            done (.condBranch condition ifTrue ifFalse)
  | ret =>
    refine displaces_returnsValue.bind fun given => ?_
    cases given with
    | true => exact displaces_operand.bind fun value => done (.ret (some value))
    | false => exact done (.ret none)

theorem displaces_optionalResult :
    Displaces g (Option.map (Token.displace g)) optionalResult optionalResult := by
  intro rest
  cases rest with
  | nil => rfl
  | cons t rest =>
    cases rest with
    | nil => rfl
    | cons e rest =>
      by_cases named : t.kind = .localName ∧ e.kind = .equals <;>
        simp [optionalResult, named, displaceOutcome]

theorem Statement.fault?_displace (s : Statement) (bound : List String) :
    (s.displace g).fault? bound =
      (s.fault? bound).map fun (t, e) => (t.displace g, e) := by
  have produces : (s.displace g).instruction.producesValue = s.instruction.producesValue :=
    Instruction.producesValue_map _ _
  have calls : (s.displace g).mayOmitResult = s.mayOmitResult := by
    unfold mayOmitResult displace
    cases s.instruction <;> rfl
  unfold fault?
  rw [produces, calls]
  cases result : s.result with
  | none =>
    simp only [displace, result, Option.map_none, Token.text_displace]
    cases s.instruction.producesValue && !s.mayOmitResult <;> rfl
  | some t =>
    simp only [displace, result, Option.map_some, Token.text_displace]
    cases s.instruction.producesValue with
    | false => rfl
    | true => by_cases known : t.text ∈ bound <;> simp [known]

theorem displaces_statement (labels bound : List String) (underLabel : Bool) :
    Displaces g (Statement.displace g) (statement labels bound underLabel)
      (statement labels bound underLabel) := by
  refine displaces_optionalResult.bind fun result => (displaces_token _ _).bind fun word => ?_
  split
  · exact displaces_failAt _ _ _
  · simp only [Token.text_displace]
    cases Mnemonic.ofText? word.text with
    | none => exact displaces_failAt _ _ _
    | some mnemonic =>
      refine (displaces_instruction labels mnemonic).bind fun x => ?_
      have fault := Statement.fault?_displace (g := g) ⟨result, word, x⟩ bound
      simp only [Statement.displace] at fault
      simp only [fault]
      cases Statement.fault? ⟨result, word, x⟩ bound with
      | none => exact displaces_pure _ _
      | some p => exact displaces_failAt _ _ _

/-! ## Bodies -/

theorem firstRepeated?_displace (seen : List String) (ts : List Token) :
    firstRepeated? seen (ts.map (Token.displace g)) =
      (firstRepeated? seen ts).map (Token.displace g) := by
  induction ts generalizing seen with
  | nil => rfl
  | cons t ts ih => by_cases known : t.text ∈ seen <;> simp [firstRepeated?, known, ih]

theorem labelTokens_displace (ts : List Token) :
    labelTokens (ts.map (Token.displace g)) = (labelTokens ts).map (Token.displace g) := by
  fun_induction labelTokens ts with
  | case1 a b rest closes => simp [labelTokens, closes]
  | case2 a b rest open_ isLabel ih => simpa [labelTokens, open_, isLabel] using ih
  | case3 a b rest open_ noLabel ih => simpa [labelTokens, open_, noLabel] using ih
  | case4 ts short =>
    match ts, short with
    | [], _ => rfl
    | [t], _ => rfl
    | a :: b :: rest, short => exact absurd rfl (short a b rest)

theorem colonNext_displace (ts : List Token) :
    colonNext (ts.map (Token.displace g)) = colonNext ts := by
  cases ts <;> rfl

/-- What is read of a body that does not end at once, without the reason why reading it ends. -/
theorem body_cons (labels bound : List String) (underLabel : Bool) (t : Token) (tail : List Token) :
    body labels bound underLabel (t :: tail) =
      if t.kind = .closeBrace then .ok (([], []), tail)
      else if t.kind = .identifier ∧ colonNext tail then
        match body labels bound true tail.tail with
        | .error e => .error e
        | .ok ((statements, sections), final) => .ok (([], ⟨t.text, statements⟩ :: sections), final)
      else
        match statement labels bound underLabel (t :: tail) with
        | .error e => .error e
        | .ok (s, after) =>
          match body labels (bound ++ s.resultName.toList) underLabel after with
          | .error e => .error e
          | .ok ((statements, sections), final) => .ok ((s :: statements, sections), final) := by
  rw [body]
  congr 2
  split
  · next e failed => simp [failed]
  · next s after readLine =>
    cases readMore : body labels (bound ++ s.resultName.toList) underLabel after <;>
      simp [readLine, readMore]

theorem displaces_body (labels bound : List String) (underLabel : Bool) :
    Displaces g (Prod.map (List.map (Statement.displace g)) (List.map (Section.displace g)))
      (body labels bound underLabel) (body labels bound underLabel) := by
  intro rest
  fun_induction body labels bound underLabel rest with
  | case1 =>
    rw [List.map_nil, body]
    rfl
  | case2 bound underLabel t tail closes => simp [body_cons, closes, displaceOutcome]
  | case3 bound underLabel t tail open_ isLabel failure failed ih =>
    rw [failed] at ih
    simp [body_cons, isLabel, colonNext_displace, ← List.map_tail, ih, displaceOutcome]
  | case4 bound underLabel t tail open_ isLabel statements sections final read ih =>
    rw [read] at ih
    simp [body_cons, isLabel, colonNext_displace, ← List.map_tail, ih, displaceOutcome,
      Section.displace]
  | case5 bound underLabel t tail open_ noLabel failure failed =>
    have line := displaces_statement (g := g) labels bound underLabel (t :: tail)
    rw [failed, List.map_cons] at line
    simp [body_cons, open_, noLabel, colonNext_displace, line, displaceOutcome]
  | case6 bound underLabel t tail open_ noLabel s middle readLine failure failed ih =>
    have line := displaces_statement (g := g) labels bound underLabel (t :: tail)
    rw [readLine, List.map_cons] at line
    rw [failed] at ih
    simp [body_cons, open_, noLabel, colonNext_displace, line, ih, displaceOutcome]
  | case7 bound underLabel t tail open_ noLabel s middle readLine statements sections final read
      ih =>
    have line := displaces_statement (g := g) labels bound underLabel (t :: tail)
    rw [readLine, List.map_cons] at line
    rw [read] at ih
    simp [body_cons, open_, noLabel, colonNext_displace, line, ih, displaceOutcome]

/-! ## Functions -/

namespace Draft

variable (name : String) (arguments : List String) (sections : List Section)

theorem statements_displace :
    statements ⟨name, arguments, sections.map (Section.displace g)⟩ =
      (statements ⟨name, arguments, sections⟩).map (Statement.displace g) := by
  simp only [statements, List.flatMap_map, List.map_flatMap]
  rfl

theorem resultNames_displace :
    resultNames ⟨name, arguments, sections.map (Section.displace g)⟩ =
      resultNames ⟨name, arguments, sections⟩ := by
  simp [resultNames, statements_displace]

theorem operands_displace :
    operands ⟨name, arguments, sections.map (Section.displace g)⟩ =
      (operands ⟨name, arguments, sections⟩).map (Operand.displace g) := by
  simp [operands, statements_displace, List.flatMap_map, List.map_flatMap, Statement.displace,
    Instruction.written_map]

theorem globals_displace :
    globals ⟨name, arguments, sections.map (Section.displace g)⟩ =
      globals ⟨name, arguments, sections⟩ := by
  have same : Operand.globalName? ∘ Operand.displace g = Operand.globalName? := by
    funext o
    cases o <;> rfl
  rw [globals, globals, operands_displace, List.filterMap_map, same]

theorem scope_displace :
    scope ⟨name, arguments, sections.map (Section.displace g)⟩ =
      scope ⟨name, arguments, sections⟩ := by
  rw [scope, scope, resultNames_displace, globals_displace]

theorem undefinedUse?_displace :
    undefinedUse? ⟨name, arguments, sections.map (Section.displace g)⟩ =
      (undefinedUse? ⟨name, arguments, sections⟩).map (Token.displace g) := by
  have uses : localUses ⟨name, arguments, sections.map (Section.displace g)⟩ =
      (localUses ⟨name, arguments, sections⟩).map (Token.displace g) := by
    have moved : Operand.localToken? ∘ Operand.displace g =
        Option.map (Token.displace g) ∘ Operand.localToken? := by
      funext o
      cases o <;> rfl
    simp only [localUses, operands_displace, List.filterMap_map, List.map_filterMap, moved]
    rfl
  simp only [undefinedUse?, scope_displace, uses, Scope.firstUndefined?, List.find?_map]
  rfl

/-- In the function that a draft writes there are no tokens. -/
theorem toFunc_displace :
    toFunc ⟨name, arguments, sections.map (Section.displace g)⟩ =
      toFunc ⟨name, arguments, sections⟩ := by
  have value (scope : Scope) : (fun o => scope.value (Operand.displace g o)) = scope.value := by
    funext o
    cases o <;> rfl
  have definition (scope : Scope) : scope.definition ∘ Statement.displace g = scope.definition := by
    funext s
    simp only [Function.comp_apply, Scope.definition, Statement.resultName_displace]
    rw [Statement.displace, Instruction.map_map, value]
  have layout_displace (first : Nat) :
      layout first (sections.map (Section.displace g)) = layout first sections := by
    induction sections generalizing first with
    | nil => rfl
    | cons s rest ih => simp [layout, Section.displace, ih]
  simp only [toFunc, statements_displace, scope_displace, globals_displace, List.map_map,
    definition, layout_displace]

end Draft

theorem displaces_function : Displaces g id function function := by
  refine (displaces_keyword _).bind fun _ => (displaces_token _ _).bind fun name =>
    (displaces_token _ _).bind fun _ => (displaces_parenList (displaces_token _ _)).bind
      fun arguments => (displaces_token _ _).bind fun _ => ?_
  rw [firstRepeated?_displace]
  cases firstRepeated? [] arguments with
  | some t => exact displaces_failAt _ _ _
  | none =>
    have state : Displaces g (List.map (Token.displace g)) get get := fun _ => rfl
    refine state.bind fun inner => ?_
    have texts (ts : List Token) :
        (ts.map (Token.displace g)).map Token.text = ts.map Token.text := by
      rw [List.map_map]
      rfl
    simp only [labelTokens_displace, firstRepeated?_displace, texts]
    cases firstRepeated? [] (labelTokens inner) with
    | some t => exact displaces_failAt _ _ _
    | none =>
      refine (displaces_body _ _ _).bind fun (statements, sections) => ?_
      simp only [Prod.map, Token.text_displace, Draft.undefinedUse?_displace, Draft.toFunc_displace]
      cases Draft.undefinedUse? ⟨name.text, arguments.map Token.text, sections⟩ with
      | some t => exact displaces_failAt _ _ _
      | none => exact displaces_pure id _

/-- Functions are read one after the other, without the reason why reading them ends. -/
theorem functions_cons (t : Token) (tail : List Token) :
    functions (t :: tail) =
      match function (t :: tail) with
      | .error e => .error e
      | .ok (f, after) =>
        match functions after with
        | .error e => .error e
        | .ok more => .ok (f :: more) := by
  rw [functions]
  split
  · next e failed => simp [failed]
  · next f after readFirst => cases readMore : functions after <;> simp [readFirst, readMore]

/-- Reading functions off tokens does not depend on where the tokens stand. -/
theorem functions_displace (ts : List Token) :
    functions (ts.map (Token.displace g)) = (functions ts).mapError (Failure.displace g) := by
  fun_induction functions ts with
  | case1 =>
    rw [List.map_nil, functions]
    rfl
  | case2 t tail failure failed =>
    have first := displaces_function (g := g) (t :: tail)
    rw [failed, List.map_cons] at first
    simp [functions_cons, first, displaceOutcome, Except.mapError]
  | case3 t tail f after read failure failed ih =>
    have first := displaces_function (g := g) (t :: tail)
    rw [read, List.map_cons] at first
    rw [failed] at ih
    simp [functions_cons, first, displaceOutcome, ih, Except.mapError]
  | case4 t tail f after read more readMore ih =>
    have first := displaces_function (g := g) (t :: tail)
    rw [read, List.map_cons] at first
    rw [readMore] at ih
    simp [functions_cons, first, displaceOutcome, ih, Except.mapError]

end BlockReuse.Source
