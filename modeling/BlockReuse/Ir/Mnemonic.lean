import BlockReuse.Ir.Instruction

/-!
# Mnemonics — the word an instruction starts with

A mnemonic tells how the rest of the instruction is written. A conditional and an unconditional
branch share one; a binary operation or a cast has a mnemonic of its own for each operator.
-/

set_option autoImplicit false

namespace BlockReuse

/-- The first word of an instruction. -/
inductive Mnemonic where
  | binary (op : BinaryOp)
  | cast (op : CastOp)
  | icmp
  | fcmp
  | extractElement
  | insertElement
  | shuffleVector
  | gep
  | extractValue
  | insertValue
  | phi
  | select
  | load
  | store
  | alloca
  | call
  | fence
  | br
  | ret
  deriving DecidableEq, Repr

namespace Mnemonic

/-- Every mnemonic. -/
def all : List Mnemonic :=
  BinaryOp.all.map binary ++ CastOp.all.map cast ++
    [icmp, fcmp, extractElement, insertElement, shuffleVector, gep, extractValue, insertValue,
      phi, select, load, store, alloca, call, fence, br, ret]

def text : Mnemonic → String
  | binary op => op.mnemonic
  | cast op => op.mnemonic
  | icmp => "icmp"
  | fcmp => "fcmp"
  | extractElement => "extractelement"
  | insertElement => "insertelement"
  | shuffleVector => "shufflevector"
  | gep => "gep"
  | extractValue => "extractvalue"
  | insertValue => "insertvalue"
  | phi => "phi"
  | select => "select"
  | load => "load"
  | store => "store"
  | alloca => "alloca"
  | call => "call"
  | fence => "fence"
  | br => "br"
  | ret => "ret"

/-- The mnemonic a word is. -/
def ofText? (word : String) : Option Mnemonic :=
  all.find? fun m => m.text == word

/-- Every mnemonic is read back from its text, so no two share one. -/
theorem ofText?_text (m : Mnemonic) : ofText? m.text = some m := by
  cases m with
  | binary op => cases op <;> decide
  | cast op => cases op <;> decide
  | _ => decide

end Mnemonic

/-- The first word of an instruction. -/
def Instruction.mnemonic {ν : Type} : Instruction ν → Mnemonic
  | binary op _ _ => .binary op
  | compare (.int _) _ _ => .icmp
  | compare (.float _) _ _ => .fcmp
  | extractElement _ _ => .extractElement
  | insertElement _ _ _ => .insertElement
  | shuffleVector _ _ _ => .shuffleVector
  | gep _ _ _ => .gep
  | extractValue _ _ => .extractValue
  | insertValue _ _ _ => .insertValue
  | phi _ => .phi
  | select _ _ _ => .select
  | cast op _ _ => .cast op
  | load _ _ _ => .load
  | store _ _ _ _ => .store
  | alloca _ => .alloca
  | call _ _ _ => .call
  | fence => .fence
  | branch _ => .br
  | condBranch _ _ _ => .br
  | ret _ => .ret

end BlockReuse
