import BlockReuse.Ir.Func
import BlockReuse.Ir.Mnemonic
import BlockReuse.Text.Listing

/-!
# Text of a function — how values, instructions and functions are written

A result without a name is written under a generated one: `r` and its index, and, where an
argument or a given name already has that form, a suffix `.1`, `.2`, … Only finitely many names are
taken, so among one candidate more than there are taken names one is free; `generatedName` looks no
further.

An index that names nothing is still written, by its number, so that every function has a text.
-/

set_option autoImplicit false

namespace BlockReuse

open Text (commaSeparated)

namespace Func

/-! ## Names -/

/-- Whether an argument or a named result is called `name`. -/
def isTaken (f : Func) (name : String) : Bool :=
  f.arguments.contains name || f.names.contains (some name)

/-- The `attempt`-th name tried for a result without one. -/
def candidateName (index attempt : Nat) : String :=
  if attempt = 0 then "r" ++ toString index else "r" ++ toString index ++ "." ++ toString attempt

/-- The first candidate that is not taken. -/
def generatedName (f : Func) (index : Nat) : String :=
  let bound := f.arguments.length + f.names.length
  candidateName index
    (((List.range (bound + 1)).find? fun attempt => !f.isTaken (candidateName index attempt)).getD
      (bound + 1))

/-- The name a result is written under. -/
def shownName (f : Func) (index : Nat) : String :=
  (f.resultName? index).getD (f.generatedName index)

/-- How a value is written. -/
def showValue (f : Func) : Value → String
  | .inst index => "%" ++ f.shownName index
  | .argument index => "%" ++ f.arguments[index]?.getD ("arg" ++ toString index)
  | .global index => "@" ++ f.globals[index]?.getD ("g" ++ toString index)
  | .const value => toString value.toInt

/-- How a block is referred to. -/
def showBlock (f : Func) (block : Nat) : String :=
  (f.label? block).getD ("b" ++ toString block)

end Func

/-- The word in front of a callee: nothing for a call that may write. -/
def Effects.attribute (effects : Effects) : String :=
  if effects = .none then "readnone " else if effects = .read then "readonly " else ""

namespace Func

/-- The word in front of the type of a volatile access. -/
def volatileMark (isVolatile : Bool) : String := if isVolatile then "volatile " else ""

/-- What follows the mnemonic of an instruction, with the blank in front of it. -/
def showTail (f : Func) (x : Instruction Value) : String :=
  let v := f.showValue
  let vs (values : List Value) : String := commaSeparated (values.map v)
  let path (indices : List UInt32) : String :=
    commaSeparated (indices.map fun index => toString index.toNat)
  match x with
  | .binary _ left right => " " ++ vs [left, right]
  | .compare p left right => " " ++ p.mnemonic ++ " " ++ vs [left, right]
  | .extractElement vector index => " " ++ vs [vector, index]
  | .insertElement vector value index => " " ++ vs [vector, value, index]
  | .shuffleVector left right mask => " " ++ vs [left, right, mask]
  | .gep element base indices => " " ++ element.text ++ " " ++ vs (base :: indices)
  | .extractValue aggregate p => " " ++ v aggregate ++ ", " ++ path p
  | .insertValue aggregate value p => " " ++ vs [aggregate, value] ++ ", " ++ path p
  | .phi incoming =>
    " " ++ commaSeparated
      (incoming.map fun (block, value) => "[" ++ f.showBlock block ++ ", " ++ v value ++ "]")
  | .select condition ifTrue ifFalse => " " ++ vs [condition, ifTrue, ifFalse]
  | .cast _ value target => " " ++ v value ++ " to " ++ target.text
  | .load type pointer isVolatile =>
    " " ++ volatileMark isVolatile ++ type.text ++ ", " ++ v pointer
  | .store type value pointer isVolatile =>
    " " ++ volatileMark isVolatile ++ type.text ++ " " ++ vs [value, pointer]
  | .alloca type => " " ++ type.text
  | .call callee arguments effects =>
    " " ++ effects.attribute ++ v callee ++ "(" ++ vs arguments ++ ")"
  | .fence => ""
  | .branch target => " " ++ f.showBlock target
  | .condBranch condition ifTrue ifFalse =>
    " " ++ commaSeparated [v condition, f.showBlock ifTrue, f.showBlock ifFalse]
  | .ret none => ""
  | .ret (some value) => " " ++ v value

/-- How an instruction is written, without its result. -/
def showInstruction (f : Func) (x : Instruction Value) : String :=
  x.mnemonic.text ++ f.showTail x

/-- The line of one instruction. -/
def definitionLine (f : Func) (index : Nat) (x : Instruction Value) : String :=
  "  " ++ (if x.producesValue then f.showValue (.inst index) ++ " = " else "") ++
    f.showInstruction x

/-- The lines of one block: its label, then its instructions. -/
def blockLines (f : Func) (block : Block) : List String :=
  (block.label ++ ":") ::
    block.members.filterMap fun index => (f.instruction? index).map (f.definitionLine index)

/-- The line that opens a function. -/
def headLine (f : Func) : String :=
  "fn @" ++ f.name ++ "(" ++ commaSeparated (f.arguments.map ("%" ++ ·)) ++ ") \x7b"

/-- The lines of a function. -/
def lines (f : Func) : List String :=
  f.headLine :: f.blocks.flatMap f.blockLines ++ ["\x7d"]

/-- The text of a function, each line ended. -/
def text (f : Func) : String := String.join (f.lines.map (· ++ "\n"))

end Func

end BlockReuse
