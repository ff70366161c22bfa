/-!
# Operators — the binary operations, compare predicates and casts, with their mnemonics

Each family is an enumeration, a mnemonic for every member, and the list of all members. Reading
a mnemonic searches that list, so a word is read as an operator exactly when it is the mnemonic of
one.
-/

set_option autoImplicit false

namespace BlockReuse

/-! ## Binary operations -/

/-- Integer and floating-point operations on two operands. -/
inductive BinaryOp where
  | add | sub | mul | udiv | sdiv | urem | srem | shl | lshr | ashr | and | or | xor
  | fadd | fsub | fmul | fdiv | frem
  deriving DecidableEq, Repr

namespace BinaryOp

/-- Every binary operation. -/
def all : List BinaryOp :=
  [add, sub, mul, udiv, sdiv, urem, srem, shl, lshr, ashr, and, or, xor,
    fadd, fsub, fmul, fdiv, frem]

def mnemonic : BinaryOp → String
  | add => "add"
  | sub => "sub"
  | mul => "mul"
  | udiv => "udiv"
  | sdiv => "sdiv"
  | urem => "urem"
  | srem => "srem"
  | shl => "shl"
  | lshr => "lshr"
  | ashr => "ashr"
  | and => "and"
  | or => "or"
  | xor => "xor"
  | fadd => "fadd"
  | fsub => "fsub"
  | fmul => "fmul"
  | fdiv => "fdiv"
  | frem => "frem"

/-- The binary operation a word is the mnemonic of. -/
def ofMnemonic? (word : String) : Option BinaryOp :=
  all.find? fun op => op.mnemonic == word

theorem ofMnemonic?_mnemonic (op : BinaryOp) : ofMnemonic? op.mnemonic = some op := by
  cases op <;> decide

end BinaryOp

/-! ## Compare predicates -/

/-- The predicates of an integer comparison. -/
inductive IntPredicate where
  | eq | ne | ugt | uge | ult | ule | sgt | sge | slt | sle
  deriving DecidableEq, Repr

namespace IntPredicate

/-- Every integer predicate. -/
def all : List IntPredicate := [eq, ne, ugt, uge, ult, ule, sgt, sge, slt, sle]

def mnemonic : IntPredicate → String
  | eq => "eq"
  | ne => "ne"
  | ugt => "ugt"
  | uge => "uge"
  | ult => "ult"
  | ule => "ule"
  | sgt => "sgt"
  | sge => "sge"
  | slt => "slt"
  | sle => "sle"

/-- The integer predicate a word is the mnemonic of. -/
def ofMnemonic? (word : String) : Option IntPredicate :=
  all.find? fun p => p.mnemonic == word

theorem ofMnemonic?_mnemonic (p : IntPredicate) : ofMnemonic? p.mnemonic = some p := by
  cases p <;> decide

end IntPredicate

/-- The predicates of a floating-point comparison. -/
inductive FloatPredicate where
  | oeq | one | ogt | oge | olt | ole | ord | uno
  deriving DecidableEq, Repr

namespace FloatPredicate

/-- Every floating-point predicate. -/
def all : List FloatPredicate := [oeq, one, ogt, oge, olt, ole, ord, uno]

def mnemonic : FloatPredicate → String
  | oeq => "oeq"
  | one => "one"
  | ogt => "ogt"
  | oge => "oge"
  | olt => "olt"
  | ole => "ole"
  | ord => "ord"
  | uno => "uno"

/-- The floating-point predicate a word is the mnemonic of. -/
def ofMnemonic? (word : String) : Option FloatPredicate :=
  all.find? fun p => p.mnemonic == word

theorem ofMnemonic?_mnemonic (p : FloatPredicate) : ofMnemonic? p.mnemonic = some p := by
  cases p <;> decide

end FloatPredicate

/-- What a comparison tests. -/
inductive Predicate where
  | int (predicate : IntPredicate)
  | float (predicate : FloatPredicate)
  deriving DecidableEq, Repr

namespace Predicate

def mnemonic : Predicate → String
  | int p => p.mnemonic
  | float p => p.mnemonic

def isFloat : Predicate → Bool
  | int _ => false
  | float _ => true

/-- The predicate a word is the mnemonic of. The two families share no mnemonic, so the order in
which they are searched does not show. -/
def ofMnemonic? (word : String) : Option Predicate :=
  (IntPredicate.ofMnemonic? word).map int <|> (FloatPredicate.ofMnemonic? word).map float

end Predicate

/-! ## Casts -/

/-- Conversions of one value to another type. -/
inductive CastOp where
  | trunc | zext | sext | fpTrunc | fpExt | fpToUi | fpToSi | uiToFp | siToFp
  | ptrToInt | intToPtr | bitcast
  deriving DecidableEq, Repr

namespace CastOp

/-- Every cast. -/
def all : List CastOp :=
  [trunc, zext, sext, fpTrunc, fpExt, fpToUi, fpToSi, uiToFp, siToFp, ptrToInt, intToPtr, bitcast]

def mnemonic : CastOp → String
  | trunc => "trunc"
  | zext => "zext"
  | sext => "sext"
  | fpTrunc => "fptrunc"
  | fpExt => "fpext"
  | fpToUi => "fptoui"
  | fpToSi => "fptosi"
  | uiToFp => "uitofp"
  | siToFp => "sitofp"
  | ptrToInt => "ptrtoint"
  | intToPtr => "inttoptr"
  | bitcast => "bitcast"

/-- The cast a word is the mnemonic of. -/
def ofMnemonic? (word : String) : Option CastOp :=
  all.find? fun op => op.mnemonic == word

theorem ofMnemonic?_mnemonic (op : CastOp) : ofMnemonic? op.mnemonic = some op := by
  cases op <;> decide

end CastOp

end BlockReuse
