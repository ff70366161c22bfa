import BlockReuse.Cli.Run

/-!
# The program — files and streams around a run

Everything that is decided is decided in `Cli.Run`; here files are read and texts are printed.
-/

set_option autoImplicit false

namespace BlockReuse.Cli

/-- Why a file could not be read, by the number of the system's error, which may come negated. -/
def ReadError.ofNumber (number : UInt32) : ReadError :=
  let is (n : UInt32) : Bool := number == n || number == 0 - n
  if is 20 then .notDirectory
  else if is 21 then .directory
  else if is 36 then .nameTooLong
  else .missing

def ReadError.ofError : IO.Error → ReadError
  | .inappropriateType _ number _ => .ofNumber number
  | .invalidArgument _ number _ => .ofNumber number
  | .illegalOperation number _ => .ofNumber number
  | .otherError number _ => .ofNumber number
  | _ => .missing

/-- What a path leads to. -/
def readContent (path : String) : IO (Except ReadError ByteArray) := do
  try
    return .ok (← IO.FS.readBinFile path)
  catch e => return .error (.ofError e)

/-- The contents of the inputs a command line names. -/
def readInputs (arguments : List String) : IO (List (String × Except ReadError ByteArray)) :=
  match Request.ofArguments arguments with
  | .ok (.run options) => options.inputs.mapM fun path => return (path, ← readContent path)
  | _ => return []

end BlockReuse.Cli

open BlockReuse.Cli in
/-- Runs the program: exit code 2 for a command line that cannot be understood, 1 for a run that
fails, 0 otherwise. -/
def main (arguments : List String) : IO UInt32 := do
  let contents ← readInputs arguments
  let environment ← IO.getEnv "RUST_LOG"
  let files : Files := fun path => (contents.lookup path).getD (.error .missing)
  match runArguments arguments environment files with
  | .error e =>
    IO.eprintln ("error: " ++ e.message)
    return 2
  | .ok output =>
    IO.print output.stdout
    IO.eprint output.stderr
    return UInt32.ofNat output.code
