import Mathlib.Computability.Language
import Mathlib.Order.CompletePartialOrder
import Mathlib.Data.List.ReduceOption
import BlockReuse.Proofs.Numerals

/-!
# Phrases — the textual form as a grammar over tokens

The tokens that write a thing form a language: the one for a list of things in a row is the product
of theirs, the one for nothing is `1`, and what cannot be written has the language `0`. The grammar
of an instruction (`Phrase.tail`) has one clause for each kind. It is given over any type of
operands, with the tokens that spell an operand as a parameter, so that it describes the operands of
a text as well as the values of a function.

Two facts are proved by looking at every clause. A phrase depends on its operands through their
spelling only (`tail_map`, `tail_mono`). And the tokens of a phrase that are no operands are words,
numbers, commas and brackets, so that what other tokens there are come from the operands, in the
order of the text (`picks_tail`).

`Func.renderings` is the language of a function.
-/

set_option autoImplicit false

namespace BlockReuse

namespace Source

/-- The name of the global that a token mentions. -/
def Token.globalName? (t : Token) : Option String :=
  if t.kind = .globalName then some t.text else none

/-- The classes of the tokens that an instruction has beside its operands. -/
def TokenKind.isFrame : TokenKind → Bool
  | localName | globalName | openBrace | closeBrace | colon | equals => false
  | _ => true

namespace Phrase

variable {ν μ : Type}

/-! ## Phrases of one token -/

/-- The phrases of one token with a property. -/
def single (p : Token → Prop) : Language Token := {ts | ∃ t, p t ∧ ts = [t]}

/-- A token of a class. -/
def mark (kind : TokenKind) : Language Token := single fun t => t.kind = kind

/-- A token of a class with a given text. -/
def spelled (kind : TokenKind) (text : String) : Language Token :=
  single fun t => t.kind = kind ∧ t.text = text

/-- A given word. -/
def word (text : String) : Language Token := spelled .identifier text

/-- The name of a type. -/
def typeName (type : IrType) : Language Token :=
  single fun t => t.kind = .identifier ∧ type.Spells t.text

/-- The label of a block. -/
def blockRef (labels : List String) (block : Nat) : Language Token :=
  single fun t => t.kind = .identifier ∧ labels[block]? = some t.text

/-- One step of a path into an aggregate. -/
def pathStep (step : UInt32) : Language Token :=
  single fun t => t.kind = .number ∧ Text.Writes 10 t.text.toList step.toNat

/-! ## Lists -/

/-- Items, each behind a comma. -/
def behindCommas (items : List (Language Token)) : Language Token :=
  (items.map (mark .comma * ·)).prod

/-- Items with commas between them. -/
def listed : List (Language Token) → Language Token
  | [] => 1
  | first :: more => first * behindCommas more

/-- Operands with commas between them. -/
def values (spells : ν → Token → Prop) (operands : List ν) : Language Token :=
  listed (operands.map fun v => single (spells v))

/-- A path behind an aggregate, which has at least one step. -/
def path : List UInt32 → Language Token
  | [] => 0
  | first :: more => behindCommas ((first :: more).map pathStep)

/-- A block and the value that comes from it. -/
def incoming (spells : ν → Token → Prop) (labels : List String) (arm : Nat × ν) : Language Token :=
  mark .openBracket * blockRef labels arm.1 * mark .comma * single (spells arm.2) *
    mark .closeBracket

/-! ## Instructions -/

/-- A word that is present or not. -/
def optionalWord (text : String) (present : Bool) : Language Token :=
  if present then word text else 1

/-- What a call declares about memory. No declaration says that it writes and does not read. -/
def callEffects : Effects → Language Token
  | ⟨false, false⟩ => word "readnone"
  | ⟨true, false⟩ => word "readonly"
  | ⟨true, true⟩ => 1
  | ⟨false, true⟩ => 0

/-- What follows the mnemonic of an instruction. -/
def tail (spells : ν → Token → Prop) (labels : List String) : Instruction ν → Language Token
  | .binary _ left right => values spells [left, right]
  | .compare p left right => word p.mnemonic * values spells [left, right]
  | .extractElement vector index => values spells [vector, index]
  | .insertElement vector value index => values spells [vector, value, index]
  | .shuffleVector left right mask => values spells [left, right, mask]
  | .gep element base indices => typeName element * values spells (base :: indices)
  | .extractValue aggregate steps => values spells [aggregate] * path steps
  | .insertValue aggregate value steps => values spells [aggregate, value] * path steps
  | .phi [] => 0
  | .phi (first :: more) => listed ((first :: more).map (incoming spells labels))
  | .select condition ifTrue ifFalse => values spells [condition, ifTrue, ifFalse]
  | .cast _ value target => values spells [value] * word "to" * typeName target
  | .load type pointer isVolatile =>
    optionalWord "volatile" isVolatile * typeName type * mark .comma * values spells [pointer]
  | .store type value pointer isVolatile =>
    optionalWord "volatile" isVolatile * typeName type * values spells [value, pointer]
  | .alloca type => typeName type
  | .call callee arguments effects =>
    callEffects effects * values spells [callee] * mark .openParen * values spells arguments *
      mark .closeParen
  | .fence => 1
  | .branch target => blockRef labels target
  | .condBranch condition ifTrue ifFalse =>
    listed [single (spells condition), blockRef labels ifTrue, blockRef labels ifFalse]
  | .ret value => values spells value.toList

/-! ## Bodies and functions -/

/-- An instruction with the name of its result, if it has one. -/
structure Line (ν : Type) where
  name : Option String
  instruction : Instruction ν

/-- A label with the lines under it. -/
structure Paragraph (ν : Type) where
  label : String
  lines : List (Line ν)

/-- The line with `g` applied to every operand. -/
def Line.map (g : ν → μ) (l : Line ν) : Line μ := ⟨l.name, l.instruction.map g⟩

/-- The paragraph with `g` applied to every operand. -/
def Paragraph.map (g : ν → μ) (p : Paragraph ν) : Paragraph μ := ⟨p.label, p.lines.map (Line.map g)⟩

/-- The name of a result with the equals sign behind it. -/
def result : Option String → Language Token
  | none => 1
  | some name => spelled .localName name * mark .equals

/-- A line. -/
def line (spells : ν → Token → Prop) (labels : List String) (l : Line ν) : Language Token :=
  result l.name * word l.instruction.mnemonic.text * tail spells labels l.instruction

/-- Lines, one after the other. -/
def lines (spells : ν → Token → Prop) (labels : List String) (ls : List (Line ν)) :
    Language Token :=
  (ls.map (line spells labels)).prod

/-- A label, a colon and lines. -/
def paragraph (spells : ν → Token → Prop) (labels : List String) (p : Paragraph ν) :
    Language Token :=
  word p.label * mark .colon * lines spells labels p.lines

/-- Paragraphs, one after the other. -/
def paragraphs (spells : ν → Token → Prop) (labels : List String) (ps : List (Paragraph ν)) :
    Language Token :=
  (ps.map (paragraph spells labels)).prod

/-- The head of a function, up to its opening brace. -/
def head (name : String) (arguments : List String) : Language Token :=
  word "fn" * spelled .globalName name * mark .openParen *
    listed (arguments.map (spelled .localName)) * mark .closeParen * mark .openBrace

/-- A function with a given body. -/
def function (name : String) (arguments : List String) (body : Language Token) : Language Token :=
  head name arguments * (body * mark .closeBrace)

/-- Whether a line has a name as its instruction asks for: every result has one, except that of a
call, which may have one; and nothing else has. -/
structure Line.WellNamed (l : Line ν) : Prop where
  named : l.instruction.producesValue = true → l.instruction.isCall = false → l.name.isSome
  unnamed : l.instruction.producesValue = false → l.name = none

theorem Line.wellNamed_map {g : ν → μ} {l : Line ν} : (l.map g).WellNamed ↔ l.WellNamed := by
  have calls : (l.instruction.map g).isCall = l.instruction.isCall := by
    cases l.instruction <;> rfl
  constructor
  · rintro ⟨named, unnamed⟩
    simp only [Line.map, Instruction.producesValue_map, calls] at named unnamed
    exact ⟨named, unnamed⟩
  · rintro ⟨named, unnamed⟩
    constructor <;> simpa only [Line.map, Instruction.producesValue_map, calls]

/-! ## Membership -/

theorem mem_single {p : Token → Prop} {ts : List Token} :
    ts ∈ single p ↔ ∃ t, p t ∧ ts = [t] := Iff.rfl

theorem mem_single_mul {p : Token → Prop} {L : Language Token} {ts : List Token} :
    ts ∈ single p * L ↔ ∃ t, p t ∧ ∃ us ∈ L, ts = t :: us := by
  simp only [Language.mem_mul, mem_single]
  constructor
  · rintro ⟨_, ⟨t, holds, rfl⟩, us, mem, rfl⟩
    exact ⟨t, holds, us, mem, rfl⟩
  · rintro ⟨t, holds, us, mem, rfl⟩
    exact ⟨[t], ⟨t, holds, rfl⟩, us, mem, rfl⟩

theorem behindCommas_cons (first : Language Token) (more : List (Language Token)) :
    behindCommas (first :: more) = mark .comma * first * behindCommas more := by
  simp [behindCommas]

theorem listed_three (a b c : Language Token) :
    listed [a, b, c] = a * mark .comma * b * mark .comma * c := by
  simp [listed, behindCommas, mul_assoc]

theorem values_one (spells : ν → Token → Prop) (a : ν) : values spells [a] = single (spells a) := by
  simp [values, listed, behindCommas]

theorem values_cons_cons (spells : ν → Token → Prop) (a b : ν) (more : List ν) :
    values spells (a :: b :: more) =
      single (spells a) * (mark .comma * values spells (b :: more)) := by
  simp [values, listed, behindCommas, mul_assoc]

/-! ## Operands count through their spelling -/

theorem single_mono {p q : Token → Prop} (h : ∀ t, p t → q t) : single p ≤ single q := by
  rintro ts ⟨t, holds, rfl⟩
  exact ⟨t, h t holds, rfl⟩

theorem prod_map_mono {α : Type} {items : List α} {L M : α → Language Token}
    (h : ∀ a ∈ items, L a ≤ M a) : (items.map L).prod ≤ (items.map M).prod := by
  induction items with
  | nil => exact le_refl _
  | cons a rest ih =>
    rw [List.map_cons, List.map_cons, List.prod_cons, List.prod_cons]
    exact mul_le_mul' (h a List.mem_cons_self) (ih fun b mem => h b (List.mem_cons_of_mem a mem))

theorem listed_map_mono {α : Type} {items : List α} {L M : α → Language Token}
    (h : ∀ a ∈ items, L a ≤ M a) : listed (items.map L) ≤ listed (items.map M) := by
  cases items with
  | nil => exact le_refl _
  | cons a rest =>
    refine mul_le_mul' (h a List.mem_cons_self) ?_
    simp only [behindCommas, List.map_map]
    refine prod_map_mono fun b mem => ?_
    exact mul_le_mul_right (h b (List.mem_cons_of_mem a mem)) _

theorem values_mono {s s' : ν → Token → Prop} {vs : List ν}
    (h : ∀ v ∈ vs, ∀ t, s v t → s' v t) : values s vs ≤ values s' vs :=
  listed_map_mono fun v mem => single_mono (h v mem)

theorem tail_mono {s s' : ν → Token → Prop} {labels : List String} {x : Instruction ν}
    (h : ∀ v ∈ x.operands, ∀ t, s v t → s' v t) : tail s labels x ≤ tail s' labels x := by
  cases x with
  | phi arms =>
    cases arms with
    | nil => exact le_refl _
    | cons first more =>
      simp only [tail]
      refine listed_map_mono fun arm mem => ?_
      have spelling := single_mono (h arm.2 (List.mem_map_of_mem mem))
      simp only [incoming]
      gcongr
  | condBranch condition ifTrue ifFalse =>
    have spelling := single_mono (h condition List.mem_cons_self)
    exact mul_le_mul_left spelling _
  | call callee arguments effects =>
    have ofArguments : values s arguments ≤ values s' arguments :=
      values_mono fun v mem => h v (List.mem_append_left _ mem)
    have ofCallee : values s [callee] ≤ values s' [callee] :=
      values_mono fun v mem => h v (List.mem_append_right _ mem)
    simp only [tail]
    gcongr
  | ret value => exact values_mono h
  | alloca type => exact le_refl _
  | fence => exact le_refl _
  | branch target => exact le_refl _
  | _ =>
    have spelling := values_mono h
    simp only [tail, Instruction.operands] at spelling ⊢
    gcongr

theorem tail_map (spells : μ → Token → Prop) (labels : List String) (g : ν → μ)
    (x : Instruction ν) : tail spells labels (x.map g) = tail (fun v => spells (g v)) labels x := by
  cases x with
  | phi arms =>
    cases arms with
    | nil => rfl
    | cons first more =>
      simp only [Instruction.map, tail, List.map_cons, List.map_map]
      rfl
  | ret value => cases value <;> rfl
  | _ => simp [tail, Instruction.map, values, Function.comp_def]

@[simp]
theorem mnemonic_map (g : ν → μ) (x : Instruction ν) : (x.map g).mnemonic = x.mnemonic := by
  cases x with
  | compare p left right => cases p <;> rfl
  | _ => rfl

theorem line_mono {s s' : ν → Token → Prop} {labels : List String} {l : Line ν}
    (h : ∀ v ∈ l.instruction.operands, ∀ t, s v t → s' v t) : line s labels l ≤ line s' labels l :=
  mul_le_mul_right (tail_mono h) _

theorem line_map (spells : μ → Token → Prop) (labels : List String) (g : ν → μ) (l : Line ν) :
    line spells labels (l.map g) = line (fun v => spells (g v)) labels l := by
  simp only [line, Line.map, mnemonic_map, tail_map]

/-- Operands that are spelled in more ways give more bodies. -/
theorem paragraphs_mono {s s' : ν → Token → Prop} {labels : List String} {ps : List (Paragraph ν)}
    (h : ∀ p ∈ ps, ∀ l ∈ p.lines, ∀ v ∈ l.instruction.operands, ∀ t, s v t → s' v t) :
    paragraphs s labels ps ≤ paragraphs s' labels ps :=
  prod_map_mono fun p mem =>
    mul_le_mul_right (prod_map_mono fun l mem' => line_mono (h p mem l mem')) _

theorem paragraphs_map (spells : μ → Token → Prop) (labels : List String) (g : ν → μ)
    (ps : List (Paragraph ν)) :
    paragraphs spells labels (ps.map (Paragraph.map g)) =
      paragraphs (fun v => spells (g v)) labels ps := by
  simp only [paragraphs, paragraph, lines, Paragraph.map, List.map_map, Function.comp_def, line_map]
  rfl

/-! ## The tokens of a phrase that are no operands -/

/-- What `pick` finds in a phrase of a language is always the same. -/
def Picks {α : Type} (pick : Token → Option α) (L : Language Token) (found : List α) : Prop :=
  ∀ ts ∈ L, ts.filterMap pick = found

section Picks

variable {α : Type} {pick : Token → Option α} {L M : Language Token} {a b : List α}

theorem picks_zero : Picks pick 0 a := fun _ mem => absurd mem (Language.notMem_zero _)

theorem picks_one : Picks pick 1 [] := by
  intro ts mem
  rw [(Language.mem_one ts).mp mem, List.filterMap_nil]

theorem picks_single {p : Token → Prop} {found : Option α} (h : ∀ t, p t → pick t = found) :
    Picks pick (single p) found.toList := by
  rintro ts ⟨t, holds, rfl⟩
  rw [← h t holds]
  cases found : pick t <;> simp [found]

theorem Picks.mul (hL : Picks pick L a) (hM : Picks pick M b) : Picks pick (L * M) (a ++ b) := by
  rintro _ ⟨ts, memL, us, memM, rfl⟩
  rw [List.filterMap_append, hL ts memL, hM us memM]

theorem Picks.frame_mul (hL : Picks pick L []) (hM : Picks pick M b) : Picks pick (L * M) b :=
  hL.mul hM

theorem Picks.mul_frame (hL : Picks pick L a) (hM : Picks pick M []) : Picks pick (L * M) a := by
  simpa using hL.mul hM

theorem picks_prod {β : Type} {items : List β} {language : β → Language Token}
    {found : β → List α} (h : ∀ b ∈ items, Picks pick (language b) (found b)) :
    Picks pick (items.map language).prod (items.flatMap found) := by
  induction items with
  | nil => exact picks_one
  | cons b rest ih =>
    rw [List.map_cons, List.prod_cons, List.flatMap_cons]
    exact (h b List.mem_cons_self).mul (ih fun c mem => h c (List.mem_cons_of_mem b mem))

variable (unpicked : ∀ t : Token, t.kind.isFrame = true → pick t = none)

include unpicked

theorem picks_frame {p : Token → Prop} (h : ∀ t, p t → t.kind.isFrame = true) :
    Picks pick (single p) [] :=
  picks_single fun t holds => unpicked t (h t holds)

theorem picks_mark {kind : TokenKind} (frame : kind.isFrame = true) : Picks pick (mark kind) [] :=
  picks_frame unpicked fun _ holds => holds ▸ frame

theorem picks_spelled {kind : TokenKind} (frame : kind.isFrame = true) (text : String) :
    Picks pick (spelled kind text) [] :=
  picks_frame unpicked fun _ holds => holds.1 ▸ frame

theorem picks_typeName (type : IrType) : Picks pick (typeName type) [] :=
  picks_frame unpicked fun _ holds => holds.1 ▸ rfl

theorem picks_blockRef (labels : List String) (block : Nat) :
    Picks pick (blockRef labels block) [] :=
  picks_frame unpicked fun _ holds => holds.1 ▸ rfl

theorem picks_behindCommas {β : Type} {items : List β} {language : β → Language Token}
    {found : β → List α} (h : ∀ b ∈ items, Picks pick (language b) (found b)) :
    Picks pick (behindCommas (items.map language)) (items.flatMap found) := by
  rw [behindCommas, List.map_map]
  exact picks_prod fun b mem => (picks_mark unpicked rfl).frame_mul (h b mem)

theorem picks_listed {β : Type} {items : List β} {language : β → Language Token}
    {found : β → List α} (h : ∀ b ∈ items, Picks pick (language b) (found b)) :
    Picks pick (listed (items.map language)) (items.flatMap found) := by
  cases items with
  | nil => exact picks_one
  | cons b rest =>
    rw [List.map_cons, listed, List.flatMap_cons]
    exact (h b List.mem_cons_self).mul
      (picks_behindCommas unpicked fun c mem => h c (List.mem_cons_of_mem b mem))

theorem picks_path (steps : List UInt32) : Picks pick (path steps) [] := by
  cases steps with
  | nil => exact picks_zero
  | cons first more =>
    have none (step : UInt32) : Picks pick (pathStep step) [] :=
      picks_frame unpicked fun _ holds => holds.1 ▸ rfl
    have steps := picks_behindCommas unpicked fun step (_ : step ∈ first :: more) => none step
    rwa [List.flatMap_eq_nil_iff.mpr fun _ _ => rfl] at steps

theorem picks_optionalWord (text : String) (present : Bool) :
    Picks pick (optionalWord text present) [] := by
  cases present with
  | false => exact picks_one
  | true => exact picks_spelled unpicked rfl text

theorem picks_callEffects (effects : Effects) : Picks pick (callEffects effects) [] := by
  rcases effects with ⟨_ | _, _ | _⟩
  · exact picks_spelled unpicked rfl _
  · exact picks_zero
  · exact picks_spelled unpicked rfl _
  · exact picks_one

variable {spells : ν → Token → Prop} {found : ν → Option α}
  (operand : ∀ v t, spells v t → pick t = found v)

include operand

theorem picks_values (vs : List ν) : Picks pick (values spells vs) (vs.filterMap found) := by
  rw [values, List.filterMap_eq_flatMap_toList]
  exact picks_listed unpicked fun v _ => picks_single (operand v)

/-- What is picked of an instruction beside its frame are operands, in the order of the text. -/
theorem picks_tail (labels : List String) (x : Instruction ν) :
    Picks pick (tail spells labels x) (x.written.filterMap found) := by
  have ofValues := picks_values unpicked operand
  have ofType := picks_typeName unpicked
  cases x with
  | binary => exact ofValues _
  | compare => exact (picks_spelled unpicked rfl _).frame_mul (ofValues _)
  | extractElement => exact ofValues _
  | insertElement => exact ofValues _
  | shuffleVector => exact ofValues _
  | gep => exact (ofType _).frame_mul (ofValues _)
  | extractValue => exact (ofValues _).mul_frame (picks_path unpicked _)
  | insertValue => exact (ofValues _).mul_frame (picks_path unpicked _)
  | phi arms =>
    cases arms with
    | nil => exact picks_zero
    | cons first more =>
      have ofArm (arm : Nat × ν) : Picks pick (incoming spells labels arm) (found arm.2).toList :=
        ((((picks_mark unpicked rfl).frame_mul (picks_blockRef unpicked _ _)).frame_mul
          (picks_mark unpicked rfl)).frame_mul (picks_single (operand arm.2))).mul_frame
            (picks_mark unpicked rfl)
      have ofArms := picks_listed unpicked fun arm (_ : arm ∈ first :: more) => ofArm arm
      simpa [tail, Instruction.written, Instruction.operands, List.filterMap_eq_flatMap_toList,
        List.flatMap_map] using ofArms
  | select => exact ofValues _
  | cast =>
    exact ((ofValues _).mul_frame (picks_spelled unpicked rfl _)).mul_frame (ofType _)
  | load =>
    exact (((picks_optionalWord unpicked _ _).frame_mul (ofType _)).frame_mul
      (picks_mark unpicked rfl)).frame_mul (ofValues _)
  | store =>
    exact ((picks_optionalWord unpicked _ _).frame_mul (ofType _)).frame_mul (ofValues _)
  | alloca => exact ofType _
  | call callee arguments effects =>
    have openParen : TokenKind.openParen.isFrame = true := rfl
    have closeParen : TokenKind.closeParen.isFrame = true := rfl
    have ofCallee := (picks_callEffects unpicked effects).frame_mul (ofValues [callee])
    have opened := ofCallee.mul_frame (picks_mark unpicked openParen)
    have closed := (opened.mul (ofValues arguments)).mul_frame
      (picks_mark unpicked closeParen)
    rwa [← List.filterMap_append] at closed
  | fence => exact picks_one
  | branch => exact picks_blockRef unpicked _ _
  | condBranch condition ifTrue ifFalse =>
    have ofLabels := picks_behindCommas unpicked fun block (_ : block ∈ [ifTrue, ifFalse]) =>
      picks_blockRef unpicked labels block
    have ofCondition := picks_single (operand condition)
    simpa [tail, listed, Instruction.written, Instruction.operands,
      List.filterMap_eq_flatMap_toList] using ofCondition.mul_frame ofLabels
  | ret => exact ofValues _

variable (unnamed : ∀ t : Token, t.kind = .localName ∨ t.kind = .equals → pick t = none)

include unnamed

theorem picks_line (labels : List String) (l : Line ν) :
    Picks pick (line spells labels l) (l.instruction.written.filterMap found) := by
  have ofName : Picks pick (result l.name) [] := by
    cases l.name with
    | none => exact picks_one
    | some name =>
      exact Picks.mul (picks_single fun t holds => unnamed t (.inl holds.1))
        (picks_single fun t holds => unnamed t (.inr holds))
  exact (ofName.frame_mul (picks_spelled unpicked rfl _)).frame_mul
    (picks_tail unpicked operand labels l.instruction)

theorem picks_lines (labels : List String) (ls : List (Line ν)) :
    Picks pick (lines spells labels ls)
      (ls.flatMap fun l => l.instruction.written.filterMap found) :=
  picks_prod fun l _ => picks_line unpicked operand unnamed labels l

theorem picks_paragraphs (unmarked : ∀ t : Token, t.kind = .colon → pick t = none)
    (labels : List String) (ps : List (Paragraph ν)) :
    Picks pick (paragraphs spells labels ps)
      (ps.flatMap fun p => p.lines.flatMap fun l => l.instruction.written.filterMap found) :=
  picks_prod fun p _ => Picks.frame_mul
    (Picks.frame_mul (picks_spelled unpicked rfl _) (picks_single fun t holds => unmarked t holds))
    (picks_lines unpicked operand unnamed labels p.lines)

end Picks

end Phrase

end Source

/-- A definition as a line. -/
def Definition.line (d : Definition) : Source.Phrase.Line Value := ⟨d.name, d.instruction⟩

namespace Func

open Source

/-- The tokens that stand for a value. -/
def Spells (f : Func) : Value → Token → Prop
  | .argument index, t => t.kind = .localName ∧ f.arguments[index]? = some t.text
  | .inst index, t => t.kind = .localName ∧ f.resultName? index = some t.text
  | .global index, t => t.kind = .globalName ∧ f.globals[index]? = some t.text
  | .const value, t => t.kind = .number ∧ Text.Literal t.text.toList value.toInt

/-- The labels of the blocks. -/
def labels (f : Func) : List String := f.blocks.map Block.label

/-- The lines of the instructions with given indices. -/
def linesAt (f : Func) (indices : List Nat) : List (Phrase.Line Value) :=
  indices.filterMap fun index => f.definitions[index]?.map Definition.line

/-- The blocks, each with the lines of its members. -/
def paragraphs (f : Func) : List (Phrase.Paragraph Value) :=
  f.blocks.map fun b => ⟨b.label, f.linesAt b.members⟩

/-- Some tokens write a function. Blocks hold the instructions in their order; names of arguments
and results differ, and so do labels; results have names where they need them; and the globals are
those that the body mentions, in the order of their first mention. -/
structure Renders (f : Func) (tokens : List Token) : Prop where
  inOrder : f.blocks.flatMap Block.members = List.range f.definitions.length
  distinctNames : (f.arguments ++ f.names.reduceOption).Nodup
  distinctLabels : f.labels.Nodup
  wellNamed : ∀ d ∈ f.definitions, d.line.WellNamed
  written : ∃ body ∈ Phrase.paragraphs f.Spells f.labels f.paragraphs,
    tokens ∈ Phrase.function f.name f.arguments {body} ∧
      (body.filterMap Token.globalName?).eraseDups = f.globals

/-- The token lists that write a function. -/
def renderings (f : Func) : Language Token := {tokens | f.Renders tokens}

end Func

end BlockReuse
