import BlockReuse.Ir.Mnemonic
import BlockReuse.Source.Draft
import BlockReuse.Source.Parser
import BlockReuse.Text.Numeral

/-!
# Grammar — how each kind of instruction is written

Every parser here reads one phrase of the textual form. A list is read in rounds, each of which
starts with a comma, so it has no more rounds than there are tokens left. No parser gives back more
than it was given (`recedes_instruction`), and a statement takes at least its mnemonic
(`shrinks_statement`).

A local name is kept as its token, and what it stands for is settled once the body is known. A
label is looked up at once: the labels of a body are collected before it is read.
-/

set_option autoImplicit false

namespace BlockReuse

/-- The type a word names. An integer type has from 1 to 65535 bits. -/
def IrType.ofText? (word : String) : Option IrType :=
  if word = "ptr" then some ptr
  else if word = "f32" then some f32
  else if word = "f64" then some f64
  else
    match word.toList with
    | 'i' :: digits =>
      ((Text.decimalBelow? 0x10000 digits).filter fun bits => decide (0 < bits)).map fun bits =>
        int (UInt16.ofNat bits)
    | _ => none

namespace Source

open BlockReuse.Source.Parser

/-! ## Phrases of one token -/

/-- The operand a token is. -/
def Operand.ofToken (t : Token) : Except ParseError Operand :=
  match t.kind with
  | .localName => .ok (.localName t)
  | .globalName => .ok (.globalName t.text)
  | .number =>
    match Text.word? t.text.toList with
    | some value => .ok (.constant value)
    | none => .error (.numberOutOfRange t.text)
  | _ => .error (.expected "value")

/-- An operand. A token that is none is left. -/
def operand : Parser Operand
  | [] => .error ⟨.expected "value", none, []⟩
  | t :: rest =>
    match Operand.ofToken t with
    | .ok value => .ok (value, rest)
    | .error e => .error ⟨e, some t, t :: rest⟩

/-- A type. -/
def typeName : Parser IrType := do
  let t ← token .identifier "type"
  match IrType.ofText? t.text with
  | some type => pure type
  | none => failAt t (.unknownType t.text)

/-- A reference to one of the labels of the body. -/
def blockRef (labels : List String) : Parser Nat := do
  let t ← token .identifier "block label"
  if t.text ∈ labels then pure (labels.idxOf t.text) else failAt t (.undefinedBlock t.text)

/-- The predicate of a comparison, among those that `find` knows. -/
def predicate {α : Type} (find : String → Option α) : Parser α := do
  let t ← token .identifier "compare predicate"
  match find t.text with
  | some p => pure p
  | none => failAt t (.unknownPredicate t.text)

/-- One step of a path into an aggregate: an unsigned decimal number of 32 bits. -/
def pathStep : Parser UInt32 := do
  let t ← token .number "aggregate index"
  match Text.decimalBelow? 0x100000000 t.text.toList with
  | some n => pure (UInt32.ofNat n)
  | none => failAt t (.numberOutOfRange t.text)

/-! ## Lists -/

/-- As many rounds of a comma and an item as there are commas, `limit` at most. -/
def afterCommasWithin {α : Type} (item : Parser α) : Nat → Parser (List α)
  | 0 => pure []
  | limit + 1 => do
    if ← nextIs .comma then
      let _ ← comma
      let a ← item
      let rest ← afterCommasWithin item limit
      pure (a :: rest)
    else pure []

/-- Items, each behind a comma, as long as a comma comes next. There are no more rounds than
tokens, since each reads a comma. -/
def afterCommas {α : Type} (item : Parser α) : Parser (List α) :=
  fun rest => afterCommasWithin item rest.length rest

/-- A list with commas between its items, behind its opening parenthesis. Where the list neither
goes on nor ends, a comma is what is missing. -/
def parenList {α : Type} (item : Parser α) : Parser (List α) := do
  if ← nextIs .closeParen then
    let _ ← token .closeParen "`,`"
    pure []
  else
    let first ← item
    let more ← afterCommas item
    let _ ← token .closeParen "`,`"
    pure (first :: more)

/-- Two operands. -/
def operands2 : Parser (Operand × Operand) := do
  let a ← operand
  let _ ← comma
  let b ← operand
  pure (a, b)

/-- Three operands. -/
def operands3 : Parser (Operand × Operand × Operand) := do
  let a ← operand
  let _ ← comma
  let b ← operand
  let _ ← comma
  let c ← operand
  pure (a, b, c)

/-- A path into an aggregate, which has at least one step. -/
def path : Parser (List UInt32) := do
  let steps ← afterCommas pathStep
  if steps = [] then failHere (.expected "aggregate index") else pure steps

/-- A block and the value that comes from it. -/
def incoming (labels : List String) : Parser (Nat × Operand) := do
  let _ ← token .openBracket "`[`"
  let block ← blockRef labels
  let _ ← comma
  let value ← operand
  let _ ← token .closeBracket "`]`"
  pure (block, value)

/-- Whether a `ret` has a value. A local name in front of an equals sign is the result of the next
statement. -/
def returnsValue : Parser Bool
  | [] => .ok (false, [])
  | t :: rest =>
    .ok (match t.kind with
      | .localName => !(rest.head?.any fun n => decide (n.kind = .equals))
      | .globalName => true
      | .number => true
      | _ => false,
      t :: rest)

/-- What a call declares about memory. -/
def callEffects : Parser Effects := do
  if ← optionalKeyword "readnone" then pure .none
  else if ← optionalKeyword "readonly" then pure .read
  else pure .readWrite

/-! ## Instructions -/

/-- What follows a mnemonic. -/
def instruction (labels : List String) : Mnemonic → Parser (Instruction Operand)
  | .binary op => do
    let (left, right) ← operands2
    pure (.binary op left right)
  | .cast op => do
    let value ← operand
    keyword "to"
    let target ← typeName
    pure (.cast op value target)
  | .icmp => do
    let p ← predicate IntPredicate.ofMnemonic?
    let (left, right) ← operands2
    pure (.compare (.int p) left right)
  | .fcmp => do
    let p ← predicate FloatPredicate.ofMnemonic?
    let (left, right) ← operands2
    pure (.compare (.float p) left right)
  | .extractElement => do
    let (vector, index) ← operands2
    pure (.extractElement vector index)
  | .insertElement => do
    let (vector, value, index) ← operands3
    pure (.insertElement vector value index)
  | .shuffleVector => do
    let (left, right, mask) ← operands3
    pure (.shuffleVector left right mask)
  | .gep => do
    let element ← typeName
    let base ← operand
    let indices ← afterCommas operand
    pure (.gep element base indices)
  | .extractValue => do
    let aggregate ← operand
    let steps ← path
    pure (.extractValue aggregate steps)
  | .insertValue => do
    let (aggregate, value) ← operands2
    let steps ← path
    pure (.insertValue aggregate value steps)
  | .phi => do
    let first ← incoming labels
    let more ← afterCommas (incoming labels)
    pure (.phi (first :: more))
  | .select => do
    let (condition, ifTrue, ifFalse) ← operands3
    pure (.select condition ifTrue ifFalse)
  | .load => do
    let isVolatile ← optionalKeyword "volatile"
    let type ← typeName
    let _ ← comma
    let pointer ← operand
    pure (.load type pointer isVolatile)
  | .store => do
    let isVolatile ← optionalKeyword "volatile"
    let type ← typeName
    let (value, pointer) ← operands2
    pure (.store type value pointer isVolatile)
  | .alloca => do
    let type ← typeName
    pure (.alloca type)
  | .call => do
    let effects ← callEffects
    let callee ← operand
    let _ ← token .openParen "`(`"
    let arguments ← parenList operand
    pure (.call callee arguments effects)
  | .fence => pure .fence
  | .br => do
    if ← nextIs .identifier then
      let target ← blockRef labels
      pure (.branch target)
    else
      let condition ← operand
      let _ ← comma
      let ifTrue ← blockRef labels
      let _ ← comma
      let ifFalse ← blockRef labels
      pure (.condBranch condition ifTrue ifFalse)
  | .ret => do
    if ← returnsValue then
      let value ← operand
      pure (.ret (some value))
    else pure (.ret none)

/-! ## Statements -/

/-- The name a statement gives its result, with the equals sign behind it. -/
def optionalResult : Parser (Option Token)
  | t :: e :: rest =>
    if t.kind = .localName ∧ e.kind = .equals then .ok (some t, rest)
    else .ok (none, t :: e :: rest)
  | rest => .ok (none, rest)

/-- Whether a statement may have no result name although its instruction produces a value. -/
def Statement.mayOmitResult (s : Statement) : Bool := s.instruction.isCall

/-- The first thing wrong with a statement that was read, `bound` being the names that are
defined before it: the token at fault and the error. -/
def Statement.fault? (s : Statement) (bound : List String) : Option (Token × ParseError) :=
  match s.result with
  | none =>
    if s.instruction.producesValue && !s.mayOmitResult then
      some (s.mnemonic, .missingResult s.mnemonic.text)
    else none
  | some result =>
    if !s.instruction.producesValue then some (s.mnemonic, .unexpectedResult s.mnemonic.text)
    else if result.text ∈ bound then some (result, .redefinition result.text)
    else none

/-- A statement, under a label or not. -/
def statement (labels bound : List String) (underLabel : Bool) : Parser Statement := do
  let result ← optionalResult
  let word ← token .identifier "instruction"
  if !underLabel then failAt word .instructionOutsideBlock
  else
    match Mnemonic.ofText? word.text with
    | none => failAt word (.unknownInstruction word.text)
    | some mnemonic =>
      let x ← instruction labels mnemonic
      let s : Statement := ⟨result, word, x⟩
      match s.fault? bound with
      | some (t, e) => failAt t e
      | none => pure s

/-! ## What the parsers leave -/

theorem shrinks_comma : Shrinks comma := shrinks_token _ _

theorem shrinks_operand : Shrinks operand := by
  intro rest a after h
  unfold operand at h
  split at h
  · cases h
  · split at h
    · cases h
      exact ⟨List.suffix_cons _ _, Nat.lt_succ_self _⟩
    · cases h

theorem shrinks_typeName : Shrinks typeName := by
  refine (shrinks_token _ _).bind fun t => ?_
  split
  · exact recedes_pure _
  · exact recedes_failAt _ _

theorem shrinks_blockRef (labels : List String) : Shrinks (blockRef labels) := by
  refine (shrinks_token _ _).bind fun t => ?_
  split
  · exact recedes_pure _
  · exact recedes_failAt _ _

theorem shrinks_predicate {α : Type} (find : String → Option α) : Shrinks (predicate find) := by
  refine (shrinks_token _ _).bind fun t => ?_
  split
  · exact recedes_pure _
  · exact recedes_failAt _ _

theorem shrinks_pathStep : Shrinks pathStep := by
  refine (shrinks_token _ _).bind fun t => ?_
  split
  · exact recedes_pure _
  · exact recedes_failAt _ _

theorem recedes_afterCommasWithin {α : Type} {item : Parser α} (h : Recedes item) (limit : Nat) :
    Recedes (afterCommasWithin item limit) := by
  induction limit with
  | zero => exact recedes_pure _
  | succ limit ih =>
    refine (recedes_nextIs _).bind fun b => ?_
    split
    · exact shrinks_comma.recedes.bind fun _ => h.bind fun _ => ih.bind fun _ => recedes_pure _
    · exact recedes_pure _

theorem recedes_afterCommas {α : Type} {item : Parser α} (h : Recedes item) :
    Recedes (afterCommas item) :=
  fun rest _ _ e => recedes_afterCommasWithin h rest.length e

theorem shrinks_parenList {α : Type} {item : Parser α} (h : Shrinks item) :
    Shrinks (parenList item) := by
  refine (recedes_nextIs _).bind_shrinks fun b => ?_
  split
  · exact (shrinks_token _ _).bind fun _ => recedes_pure _
  · exact h.bind fun _ => (recedes_afterCommas h.recedes).bind fun _ =>
      (shrinks_token _ _).recedes.bind fun _ => recedes_pure _

theorem shrinks_operands2 : Shrinks operands2 :=
  shrinks_operand.bind fun _ => shrinks_comma.recedes.bind fun _ =>
    shrinks_operand.recedes.bind fun _ => recedes_pure _

theorem shrinks_operands3 : Shrinks operands3 :=
  shrinks_operand.bind fun _ => shrinks_comma.recedes.bind fun _ =>
    shrinks_operand.recedes.bind fun _ => shrinks_comma.recedes.bind fun _ =>
      shrinks_operand.recedes.bind fun _ => recedes_pure _

theorem recedes_path : Recedes path := by
  refine (recedes_afterCommas shrinks_pathStep.recedes).bind fun steps => ?_
  split
  · exact recedes_failHere _
  · exact recedes_pure _

theorem shrinks_incoming (labels : List String) : Shrinks (incoming labels) :=
  (shrinks_token _ _).bind fun _ => (shrinks_blockRef labels).recedes.bind fun _ =>
    shrinks_comma.recedes.bind fun _ => shrinks_operand.recedes.bind fun _ =>
      (shrinks_token _ _).recedes.bind fun _ => recedes_pure _

theorem recedes_returnsValue : Recedes returnsValue := by
  intro rest a after h
  unfold returnsValue at h
  split at h <;> cases h <;> exact List.suffix_refl _

theorem recedes_callEffects : Recedes callEffects := by
  refine (recedes_optionalKeyword _).bind fun b => ?_
  split
  · exact recedes_pure _
  · refine (recedes_optionalKeyword _).bind fun b => ?_
    split <;> exact recedes_pure _

/-- No instruction gives back more tokens than it was given. -/
theorem recedes_instruction (labels : List String) (m : Mnemonic) :
    Recedes (instruction labels m) := by
  have value := shrinks_operand.recedes
  have sep := shrinks_comma.recedes
  have type := shrinks_typeName.recedes
  have two := shrinks_operands2.recedes
  have three := shrinks_operands3.recedes
  have block := (shrinks_blockRef labels).recedes
  cases m with
  | binary op => exact two.bind fun _ => recedes_pure _
  | cast op =>
    exact value.bind fun _ => (shrinks_keyword _).recedes.bind fun _ => type.bind fun _ =>
      recedes_pure _
  | icmp => exact (shrinks_predicate _).recedes.bind fun _ => two.bind fun _ => recedes_pure _
  | fcmp => exact (shrinks_predicate _).recedes.bind fun _ => two.bind fun _ => recedes_pure _
  | extractElement => exact two.bind fun _ => recedes_pure _
  | insertElement => exact three.bind fun _ => recedes_pure _
  | shuffleVector => exact three.bind fun _ => recedes_pure _
  | gep =>
    exact type.bind fun _ => value.bind fun _ => (recedes_afterCommas value).bind fun _ =>
      recedes_pure _
  | extractValue => exact value.bind fun _ => recedes_path.bind fun _ => recedes_pure _
  | insertValue => exact two.bind fun _ => recedes_path.bind fun _ => recedes_pure _
  | phi =>
    exact (shrinks_incoming labels).recedes.bind fun _ =>
      (recedes_afterCommas (shrinks_incoming labels).recedes).bind fun _ => recedes_pure _
  | select => exact three.bind fun _ => recedes_pure _
  | load =>
    exact (recedes_optionalKeyword _).bind fun _ => type.bind fun _ => sep.bind fun _ =>
      value.bind fun _ => recedes_pure _
  | store =>
    exact (recedes_optionalKeyword _).bind fun _ => type.bind fun _ => two.bind fun _ =>
      recedes_pure _
  | alloca => exact type.bind fun _ => recedes_pure _
  | call =>
    exact recedes_callEffects.bind fun _ => value.bind fun _ =>
      (shrinks_token _ _).recedes.bind fun _ =>
        (shrinks_parenList shrinks_operand).recedes.bind fun _ => recedes_pure _
  | fence => exact recedes_pure _
  | br =>
    refine (recedes_nextIs _).bind fun b => ?_
    split
    · exact block.bind fun _ => recedes_pure _
    · exact value.bind fun _ => sep.bind fun _ => block.bind fun _ => sep.bind fun _ =>
        block.bind fun _ => recedes_pure _
  | ret =>
    refine recedes_returnsValue.bind fun b => ?_
    split
    · exact value.bind fun _ => recedes_pure _
    · exact recedes_pure _

theorem recedes_optionalResult : Recedes optionalResult := by
  intro rest a after h
  unfold optionalResult at h
  split at h
  · split at h
    · cases h
      exact (List.suffix_cons _ _).trans (List.suffix_cons _ _)
    · cases h
      exact List.suffix_refl _
  · cases h
    exact List.suffix_refl _

/-- A statement takes at least its mnemonic. -/
theorem shrinks_statement (labels bound : List String) (underLabel : Bool) :
    Shrinks (statement labels bound underLabel) := by
  refine recedes_optionalResult.bind_shrinks fun result => ?_
  refine (shrinks_token _ _).bind fun word => ?_
  split
  · exact recedes_failAt _ _
  · split
    · exact recedes_failAt _ _
    · refine (recedes_instruction labels _).bind fun x => ?_
      dsimp only
      split
      · exact recedes_failAt _ _
      · exact recedes_pure _

end Source

end BlockReuse
