import BlockReuse.Ir.Func
import BlockReuse.Source.Token

/-!
# Drafts — a function as it is written, before its names are resolved

A draft keeps the sections of a body under their labels, and operands as they stand in the text.
The places of instructions, the numbers of globals and what a local name stands for are all
functions of the whole draft, so a name may be used before the line that defines it:

- the instructions are numbered through the sections in order;
- the globals are numbered by their first mention in the text;
- a local name stands for the argument of that name, else for the result of that name.
-/

set_option autoImplicit false

namespace BlockReuse.Source

/-- An operand as it is written. -/
inductive Operand where
  | localName (token : Token)
  | globalName (name : String)
  | constant (value : Int64)
  deriving DecidableEq, Repr

/-- The token of a local name. -/
def Operand.localToken? : Operand → Option Token
  | localName token => some token
  | _ => none

/-- The name of a global. -/
def Operand.globalName? : Operand → Option String
  | globalName name => some name
  | _ => none

/-- An instruction with the token of its result's name and that of its mnemonic. -/
structure Statement where
  result : Option Token
  mnemonic : Token
  instruction : Instruction Operand
  deriving DecidableEq, Repr

/-- The name a statement gives its result. -/
def Statement.resultName (s : Statement) : Option String := s.result.map Token.text

/-- What names are looked up in: the arguments, the name of each statement's result, and the
globals. -/
structure Scope where
  arguments : List String
  results : List (Option String)
  globals : List String
  deriving DecidableEq, Repr

namespace Scope

/-- Whether a local name is defined. -/
def defines (s : Scope) (name : String) : Bool :=
  s.arguments.contains name || s.results.contains (some name)

/-- The first of some uses of local names whose name is not defined. -/
def firstUndefined? (s : Scope) (uses : List Token) : Option Token :=
  uses.find? fun t => !s.defines t.text

/-- What an operand stands for. For a local name that is not defined this is no instruction of
the function. -/
def value (s : Scope) : Operand → Value
  | .localName t =>
    if t.text ∈ s.arguments then .argument (s.arguments.idxOf t.text)
    else .inst (s.results.idxOf (some t.text))
  | .globalName name => .global (s.globals.idxOf name)
  | .constant c => .const c

/-- The definition a statement makes. -/
def definition (s : Scope) (statement : Statement) : Definition :=
  ⟨statement.instruction.map s.value, statement.resultName⟩

end Scope

/-- A label and the statements up to the next one. -/
structure Section where
  label : String
  statements : List Statement
  deriving DecidableEq, Repr

/-- A function as it is written. -/
structure Draft where
  name : String
  arguments : List String
  sections : List Section
  deriving DecidableEq, Repr

namespace Draft

/-- The statements of all sections, in order. -/
def statements (d : Draft) : List Statement := d.sections.flatMap Section.statements

/-- The result names, in the order of the statements. -/
def resultNames (d : Draft) : List (Option String) := d.statements.map Statement.resultName

/-- Every operand, in the order of the text. -/
def operands (d : Draft) : List Operand := d.statements.flatMap fun s => s.instruction.written

/-- The globals, in the order of their first mention. -/
def globals (d : Draft) : List String := (d.operands.filterMap Operand.globalName?).eraseDups

/-- The uses of local names, in the order of the text. -/
def localUses (d : Draft) : List Token := d.operands.filterMap Operand.localToken?

/-- What the names in a draft are looked up in. -/
def scope (d : Draft) : Scope := ⟨d.arguments, d.resultNames, d.globals⟩

/-- The first use of a local name that is not defined. -/
def undefinedUse? (d : Draft) : Option Token := d.scope.firstUndefined? d.localUses

/-- The blocks of sections whose first statement has the place `first`. -/
def layout : Nat → List Section → List Block
  | _, [] => []
  | first, s :: rest =>
    ⟨s.label, List.range' first s.statements.length⟩ :: layout (first + s.statements.length) rest

/-- The blocks hold the places of the statements, in order. -/
theorem layout_members (first : Nat) (sections : List Section) :
    (layout first sections).flatMap Block.members =
      List.range' first (sections.flatMap Section.statements).length := by
  induction sections generalizing first with
  | nil => rfl
  | cons s rest ih =>
    simp only [layout, List.flatMap_cons, ih, List.length_append]
    rw [List.range'_append_1]

/-- The function a draft writes. -/
def toFunc (d : Draft) : Func where
  name := d.name
  arguments := d.arguments
  globals := d.globals
  definitions := d.statements.map d.scope.definition
  blocks := layout 0 d.sections
  placed := by
    rw [layout_members, List.length_map, List.range_eq_range']
    exact .refl _

end Draft

end BlockReuse.Source
