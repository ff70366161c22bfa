/-!
# Options — what the command line asks for

Arguments are read from left to right, and the first one that is wrong, or that asks for help or
for the version, decides. An argument that starts with a hyphen is an option, a lone hyphen
excepted; behind `--` every argument is an input.
-/

set_option autoImplicit false

namespace BlockReuse.Cli

/-- Which oracle decides whether a store leaves a load alone. -/
inductive AliasMode where
  | basic
  | conservative
  deriving DecidableEq, Repr

/-- The mode a word names. -/
def AliasMode.ofText? (word : String) : Option AliasMode :=
  if word = "basic" then some basic
  else if word = "conservative" then some conservative
  else none

/-- What is to be done with which inputs. -/
structure Options where
  inputs : List String
  aliasMode : AliasMode
  showDiff : Bool
  verifySettled : Bool
  verbosity : Nat
  deriving DecidableEq, Repr

/-- What a command line asks for. -/
inductive Request where
  | version
  | help (long : Bool)
  | run (options : Options)
  deriving DecidableEq, Repr

/-- Why a command line cannot be understood. -/
inductive UsageError where
  | unknownOption (argument : String)
  | repeatedOption (name : String)
  | missingValue (name : String)
  | invalidValue (name value : String)
  | unexpectedValue (argument : String)
  | emptyInput
  | noInput
  deriving DecidableEq, Repr

def UsageError.message : UsageError → String
  | unknownOption argument => "unexpected argument '" ++ argument ++ "'"
  | repeatedOption name => "'" ++ name ++ "' cannot be given more than once"
  | missingValue name => "'" ++ name ++ "' needs a value"
  | invalidValue name value => "invalid value '" ++ value ++ "' for '" ++ name ++ "'"
  | unexpectedValue argument => "unexpected value in '" ++ argument ++ "'"
  | emptyInput => "an input must not be empty"
  | noInput => "no input was given"

/-- What has been read of a command line. -/
structure Gathered where
  inputs : List String
  aliasMode : Option AliasMode
  showDiff : Bool
  verifySettled : Bool
  verbosity : Nat

namespace Gathered

def start : Gathered := ⟨[], none, false, false, 0⟩

/-- The options when the command line ends. -/
def finish (p : Gathered) : Except UsageError Request :=
  if p.inputs = [] then .error .noInput
  else .ok (.run ⟨p.inputs, p.aliasMode.getD .basic, p.showDiff, p.verifySettled, p.verbosity⟩)

def addInput (p : Gathered) (input : String) : Except UsageError Gathered :=
  if input = "" then .error .emptyInput else .ok { p with inputs := p.inputs ++ [input] }

def setAlias (p : Gathered) (value : String) : Except UsageError Gathered :=
  match AliasMode.ofText? value with
  | none => .error (.invalidValue "--alias" value)
  | some mode =>
    if p.aliasMode.isSome then .error (.repeatedOption "--alias")
    else .ok { p with aliasMode := some mode }

/-- An option without a value, by its long name. It may make a request at once. -/
def setFlag (p : Gathered) (argument : String) : Except UsageError (Request ⊕ Gathered) :=
  if argument = "--diff" then
    if p.showDiff then .error (.repeatedOption argument)
    else .ok (.inr { p with showDiff := true })
  else if argument = "--verify-idempotent" then
    if p.verifySettled then .error (.repeatedOption argument)
    else .ok (.inr { p with verifySettled := true })
  else if argument = "--verbose" then .ok (.inr { p with verbosity := p.verbosity + 1 })
  else if argument = "--help" then .ok (.inl (.help true))
  else if argument = "--version" then .ok (.inl .version)
  else .error (.unknownOption argument)

/-- Short options behind one hyphen. -/
def setShort (p : Gathered) (argument : String) :
    List Char → Except UsageError (Request ⊕ Gathered)
  | [] => .ok (.inr p)
  | c :: rest =>
    if c = 'v' then { p with verbosity := p.verbosity + 1 }.setShort argument rest
    else if c = 'h' then .ok (.inl (.help false))
    else if c = 'V' then .ok (.inl .version)
    else .error (.unknownOption argument)

end Gathered

/-- Whether an argument is an option and no value. -/
def isOption : List Char → Bool
  | '-' :: _ :: _ => true
  | _ => false

/-- The part of an argument in front of its first equals sign, and the part behind it. -/
def splitValue (argument : List Char) : String × Option String :=
  let name := argument.takeWhile (· ≠ '=')
  match argument.dropWhile (· ≠ '=') with
  | [] => (String.ofList name, none)
  | _ :: value => (String.ofList name, some (String.ofList value))

/-- Reads the arguments that are left. -/
def readArguments (p : Gathered) : List String → Except UsageError Request
  | [] => p.finish
  | argument :: rest =>
    match argument.toList with
    | ['-', '-'] => do (← rest.foldlM Gathered.addInput p).finish
    | '-' :: '-' :: chars =>
      match splitValue ('-' :: '-' :: chars) with
      | ("--alias", some value) => do readArguments (← p.setAlias value) rest
      | ("--alias", none) =>
        match rest with
        | [] => .error (.missingValue "--alias")
        | value :: rest =>
          if isOption value.toList then .error (.missingValue "--alias")
          else do readArguments (← p.setAlias value) rest
      | (name, none) => do
        match ← p.setFlag name with
        | .inl request => .ok request
        | .inr p => readArguments p rest
      | (_, some _) => .error (.unexpectedValue argument)
    | '-' :: c :: chars => do
      match ← p.setShort argument (c :: chars) with
      | .inl request => .ok request
      | .inr p => readArguments p rest
    | _ => do readArguments (← p.addInput argument) rest

/-- Reads a command line. -/
def Request.ofArguments (arguments : List String) : Except UsageError Request :=
  readArguments .start arguments

end BlockReuse.Cli
