import BlockReuse.Source.Token
import BlockReuse.Text.Quoted

/-!
# Errors of a source — the causes, and the words for each
-/

set_option autoImplicit false

namespace BlockReuse.Source

/-- Why no token can be read. -/
inductive LexError where
  /-- A sigil with no name behind it. -/
  | emptyName (sigil : Char)
  /-- The mark `0x` without a digit. -/
  | incompleteHex
  /-- A character no token starts with. -/
  | invalidCharacter (character : Char)
  deriving DecidableEq, Repr

/-- The words for a lexical error. -/
def LexError.message : LexError → String
  | emptyName sigil => "`" ++ sigil.toString ++ "` must be followed by a name"
  | incompleteHex => "incomplete hex literal"
  | invalidCharacter c => "invalid character " ++ Text.quoteChar c

/-- Why a source is no list of functions. -/
inductive ParseError where
  | lexical (error : LexError)
  | expected (what : String)
  | unknownInstruction (mnemonic : String)
  | unknownType (name : String)
  | unknownPredicate (name : String)
  | numberOutOfRange (literal : String)
  | undefinedValue (name : String)
  | undefinedBlock (label : String)
  | redefinition (name : String)
  | duplicateBlock (label : String)
  | missingResult (mnemonic : String)
  | unexpectedResult (mnemonic : String)
  | instructionOutsideBlock
  deriving DecidableEq, Repr

/-- The words for an error. -/
def ParseError.message : ParseError → String
  | lexical error => error.message
  | expected what => "expected " ++ what
  | unknownInstruction mnemonic => "unknown instruction `" ++ mnemonic ++ "`"
  | unknownType name => "unknown type `" ++ name ++ "`"
  | unknownPredicate name => "unknown compare predicate `" ++ name ++ "`"
  | numberOutOfRange literal => "integer literal `" ++ literal ++ "` is out of range"
  | undefinedValue name => "undefined value `%" ++ name ++ "`"
  | undefinedBlock label => "undefined block `" ++ label ++ "`"
  | redefinition name => "`%" ++ name ++ "` is defined more than once"
  | duplicateBlock label => "block `" ++ label ++ "` is defined more than once"
  | missingResult mnemonic => "`" ++ mnemonic ++ "` produces a value and needs a result name"
  | unexpectedResult mnemonic => "`" ++ mnemonic ++ "` does not produce a value"
  | instructionOutsideBlock => "instruction before the first block label"

/-- The message of an error of a source, with its position. -/
def errorText (error : Located ParseError) : String := error.message ParseError.message

end BlockReuse.Source
