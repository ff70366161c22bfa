import BlockReuse.Alias.Basic
import BlockReuse.Cli.Directory
import BlockReuse.Cli.Help
import BlockReuse.Cli.Options
import BlockReuse.Diff.Unified
import BlockReuse.Log.Filter
import BlockReuse.Reuse.Report
import BlockReuse.Source.Reading
import BlockReuse.Text.Lines

/-!
# Runs — from options and files to everything the program prints

A run is a function of the options and of what the inputs hold. All inputs are read and parsed
before anything is printed, so a bad input leaves the output empty. Then each function is taken
through the pass once and printed; when a settled result is to be verified, the pass is run a
second time, and the run stops at the first function that the second pass still changes.

A run decides what is compared and which messages there are. How a change is shown and how
messages are shown is given to it (`Comparison`, `Logger`), and chosen in `runArguments`.
-/

set_option autoImplicit false

namespace BlockReuse.Cli

/-! ## Inputs -/

/-- The text of a file, which has to be UTF-8. -/
def Files.text (files : Files) (path : String) : Except ReadError String := do
  match String.fromUTF8? (← files path) with
  | some text => .ok text
  | none => .error .notText

/-- Why a run fails. -/
inductive RunError where
  | unreadable (path : String) (cause : ReadError)
  | unparsable (path : String) (cause : Source.Located Source.ParseError)
  | notSettled (func path : String)
  deriving DecidableEq, Repr

namespace RunError

/-- What failed. -/
def context : RunError → String
  | unreadable path _ => "failed to read " ++ path
  | unparsable path _ => "failed to parse " ++ path
  | notSettled func path => passName ++ " is not idempotent on @" ++ func ++ " in " ++ path

/-- Why it failed, where there is more to say. -/
def cause? : RunError → Option String
  | unreadable _ cause => some cause.message
  | unparsable _ cause => some (Source.errorText cause)
  | notSettled _ _ => none

/-- An error as it is shown. -/
def text (e : RunError) : String :=
  "Error: " ++ e.context ++
    match e.cause? with
    | none => ""
    | some cause => "\n\nCaused by:\n    " ++ cause

end RunError

/-- The functions of one input. -/
structure Module where
  path : String
  functions : List Func

/-- Reads and parses one input. -/
def load (files : Files) (path : String) : Except RunError Module :=
  match files.text path with
  | .error cause => .error (.unreadable path cause)
  | .ok source =>
    match Source.parse source with
    | .error cause => .error (.unparsable path cause)
    | .ok functions => .ok ⟨path, functions⟩

/-- The part of the program that sends the messages about inputs and functions. -/
def runTarget : String := "local_cse"

def Module.record (m : Module) : LogRecord :=
  ⟨.debug, runTarget,
    "[driver] " ++ m.path ++ ": " ++ toString m.functions.length ++ " function(s)"⟩

/-- Reads and parses inputs up to the first bad one: the messages, and the modules if there is
none. -/
def loadAll (files : Files) :
    List String → List LogRecord × Except RunError (List Module)
  | [] => ([], .ok [])
  | path :: rest =>
    match load files path with
    | .error e => ([], .error e)
    | .ok m =>
      let (log, modules) := loadAll files rest
      (m.record :: log, modules.map (m :: ·))

/-! ## Functions -/

/-- The oracle for a function. -/
def AliasMode.oracle (mode : AliasMode) (f : Func) : Oracle :=
  match mode with
  | basic => .basic f
  | conservative => .conservative

/-- How a change is shown: a header for the old text, one for the new text, and both. -/
abbrev Comparison := String → String → String → String → String

/-- A change as a unified diff. -/
def unifiedText : Comparison := fun header newHeader old new =>
  let linesOf (text : String) := (Text.lines text.toList).map String.ofList
  String.join ((Diff.unified header newHeader (linesOf old) (linesOf new)).map (· ++ "\n"))

/-- What is printed for a function: its text after the pass, or what the pass changed in it. -/
def functionOutput (compare : Comparison) (options : Options) (path : String)
    (before after : Func) : String :=
  if options.showDiff then
    let header := path ++ ":@" ++ before.name
    compare header (header ++ " (after " ++ passName ++ ")") before.text after.text
  else after.text

/-- What a run has shown. -/
structure Report where
  log : List LogRecord
  stdout : String
  error : Option RunError

def passRecord (path : String) (f : Func) (modified : Bool) : LogRecord :=
  ⟨.info, runTarget, "[" ++ passName ++ "] @" ++ f.name ++ " in " ++ path ++ ": modified=" ++
    (if modified then "true" else "false")⟩

/-- Takes functions through the pass, each with the path it comes from. A verifying pass goes on
where the first one ended, with the same oracle. -/
def processAll (compare : Comparison) (options : Options) : List (String × Func) → Report
  | [] => ⟨[], "", none⟩
  | (path, f) :: rest =>
    let oracle := options.aliasMode.oracle f
    let first := reuse oracle f
    let again := reuse oracle first.func
    let log := first.log ++ passRecord path f first.modified ::
      (if options.verifySettled then again.log else [])
    if options.verifySettled && again.modified then ⟨log, "", some (.notSettled f.name path)⟩
    else
      let after := if options.verifySettled then again.func else first.func
      let report := processAll compare options rest
      { report with
        log := log ++ report.log
        stdout := functionOutput compare options path f after ++ report.stdout }

/-- The functions of modules, each with its path. -/
def allFunctions (modules : List Module) : List (String × Func) :=
  modules.flatMap fun m => m.functions.map fun f => (m.path, f)

/-- A whole run. -/
def process (compare : Comparison) (options : Options) (files : Files) : Report :=
  match loadAll files options.inputs with
  | (log, .error e) => ⟨log, "", some e⟩
  | (log, .ok modules) =>
    let report := processAll compare options (allFunctions modules)
    { report with log := log ++ report.log }

/-! ## Everything that is printed -/

/-- The request for messages that a verbosity makes. -/
def defaultRequest : Nat → String
  | 0 => "warn"
  | 1 => "debug"
  | _ => "trace"

/-- What a program leaves behind. -/
structure Output where
  code : Nat
  stdout : String
  stderr : String

/-- What the program does with options, under a request for messages that the environment may
hold. -/
def runOptions (compare : Comparison) (logger : Logger) (options : Options)
    (environment : Option String) (files : Files) : Output :=
  let report := process compare options files
  let shown := logger environment (defaultRequest options.verbosity) report.log
  match report.error with
  | none => ⟨0, report.stdout, shown⟩
  | some e => ⟨1, report.stdout, shown ++ e.text ++ "\n"⟩

/-- What the program does with a command line. -/
def runArguments (arguments : List String) (environment : Option String)
    (files : Files) : Except UsageError Output :=
  match Request.ofArguments arguments with
  | .error e => .error e
  | .ok .version => .ok ⟨0, versionText, ""⟩
  | .ok (.help long) => .ok ⟨0, helpText long, ""⟩
  | .ok (.run options) => .ok (runOptions unifiedText filteredLog options environment files)

end BlockReuse.Cli
