import BlockReuse.Cli.Run
import BlockReuse.Proofs.Duplicates

/-!
# Output — what a run prints, and where it stops

What there is to print is said first, in terms of its own: the words about a bad input
(`Files.Bad`), a first and a second pass with an oracle for the function as it came (`firstPass`,
`secondPass`), and the text of a function behind the first (`outputOnce`).

Inputs are loaded one by one up to the first bad one, and functions are printed one by one up to the
first that is not settled. Each loop is told by where it cuts its list: `loadAll_cases` for the
inputs, `processAll_cases` for the functions. A run that verifies prints a function as the second
pass leaves it; that is how the first pass left it, since a pass that reports no change made none.
-/

set_option autoImplicit false

namespace BlockReuse.Cli

/-! ## What there is to print -/

/-- An input cannot be read, is no text, or cannot be parsed; the words about it name the input and
the cause. -/
inductive Files.Bad (files : Files) (path : String) : String → Prop
  | unreadable {cause : ReadError} (unread : files path = .error cause) :
    Bad files path ("failed to read " ++ path ++ "\n\nCaused by:\n    " ++ cause.message)
  | undecodable {content : ByteArray} (read : files path = .ok content)
    (undecoded : String.fromUTF8? content = none) :
    Bad files path ("failed to read " ++ path ++ "\n\nCaused by:\n    " ++
      "stream did not contain valid UTF-8")
  | unparsable {content : ByteArray} {source : String} {cause : Source.Located Source.ParseError}
    (read : files path = .ok content) (decoded : String.fromUTF8? content = some source)
    (unparsed : Source.parse source = .error cause) :
    Bad files path ("failed to parse " ++ path ++ "\n\nCaused by:\n    " ++ Source.errorText cause)

/-- The input can be read and parsed, and the module has its functions. -/
structure Files.Holds (files : Files) (path : String) (m : Module) : Prop where
  named : m.path = path
  parsed : ∃ content source, files path = .ok content ∧
    String.fromUTF8? content = some source ∧ Source.parse source = .ok m.functions

/-- One pass over a function, with an oracle for the function as it came. -/
def firstPass (mode : AliasMode) (f : Func) : Outcome :=
  match mode with
  | .basic => reuse (.basic f) f
  | .conservative => reuse .conservative f

/-- One more pass over what the first one leaves, with the same oracle. -/
def secondPass (mode : AliasMode) (f : Func) : Outcome :=
  match mode with
  | .basic => reuse (.basic f) (firstPass .basic f).func
  | .conservative => reuse .conservative (firstPass .conservative f).func

section

variable (compare : Comparison) (options : Options)

/-- What there is to print for a function of an input: its text behind one pass or, where changes
are asked for, how its texts in front of the pass and behind it compare. -/
def outputOnce (p : String × Func) : String :=
  let (path, f) := p
  let after := (firstPass options.aliasMode f).func
  if options.showDiff then
    compare (path ++ ":@" ++ f.name) (path ++ ":@" ++ f.name ++ " (after local-cse)") f.text
      after.text
  else after.text

/-- Whether a second pass, with the oracle of the first, reports a change. -/
def ChangesAgain (f : Func) : Prop := (secondPass options.aliasMode f).modified = true

instance (f : Func) : Decidable (ChangesAgain options f) := inferInstanceAs (Decidable (_ = true))

end

/-! ## Errors -/

namespace RunError

variable (path : String)

theorem text_unreadable (cause : ReadError) : (unreadable path cause).text =
    "Error: " ++ ("failed to read " ++ path ++ "\n\nCaused by:\n    " ++ cause.message) := by
  show "Error: " ++ ("failed to read " ++ path) ++ ("\n\nCaused by:\n    " ++ cause.message) = _
  simp only [String.append_assoc]

theorem text_unparsable (cause : Source.Located Source.ParseError) : (unparsable path cause).text =
    "Error: " ++
      ("failed to parse " ++ path ++ "\n\nCaused by:\n    " ++ Source.errorText cause) := by
  show "Error: " ++ ("failed to parse " ++ path) ++
    ("\n\nCaused by:\n    " ++ Source.errorText cause) = _
  simp only [String.append_assoc]

theorem text_notSettled (func : String) : (notSettled func path).text =
    "Error: local-cse is not idempotent on @" ++ func ++ " in " ++ path := by
  have words : "Error: " ++ (passName ++ " is not idempotent on @") =
      "Error: local-cse is not idempotent on @" := by decide
  show "Error: " ++ (passName ++ " is not idempotent on @" ++ func ++ " in " ++ path) ++ "" = _
  simp only [String.append_empty, ← words, String.append_assoc]

end RunError

/-! ## Inputs -/

section Inputs

variable {files : Files} {path words : String} {e : RunError} {m : Module}

theorem Files.text_eq_ok {source : String} : files.text path = .ok source ↔
    ∃ content, files path = .ok content ∧ String.fromUTF8? content = some source := by
  cases read : files path with
  | error cause => simp [Files.text, read, bind, Except.bind]
  | ok content =>
    cases decoded : String.fromUTF8? content <;> simp [Files.text, read, decoded, bind, Except.bind]

theorem Files.text_eq_error {cause : ReadError} : files.text path = .error cause ↔
    files path = .error cause ∨
      (∃ content, files path = .ok content ∧ String.fromUTF8? content = none) ∧
        cause = .notText := by
  cases read : files path with
  | error other => simp [Files.text, read, bind, Except.bind]
  | ok content =>
    cases decoded : String.fromUTF8? content <;>
      simp [Files.text, read, decoded, bind, Except.bind, eq_comm]

theorem Files.Holds.not_bad (held : files.Holds path m) : ¬ files.Bad path words := by
  obtain ⟨-, content, source, read, decoded, parsed⟩ := held
  rintro (unread | ⟨read', undecoded⟩ | ⟨read', decoded', unparsed⟩)
  · cases read.symm.trans unread
  · cases read.symm.trans read'
    cases decoded.symm.trans undecoded
  · cases read.symm.trans read'
    cases decoded.symm.trans decoded'
    cases parsed.symm.trans unparsed

theorem not_bad_of_forall₂ {inputs : List String} {modules : List Module}
    (all : List.Forall₂ files.Holds inputs modules) (mem : path ∈ inputs) :
    ¬ files.Bad path words := by
  induction all with
  | nil => cases mem
  | cons held _ ih =>
    rcases List.mem_cons.mp mem with rfl | mem
    · exact held.not_bad
    · exact ih mem

theorem bad_of_load_eq_error (failed : load files path = .error e) :
    ∃ words, files.Bad path words ∧ e.text = "Error: " ++ words := by
  unfold load at failed
  split at failed
  · next unread =>
    cases failed
    rcases Files.text_eq_error.mp unread with unread | ⟨⟨content, read, undecoded⟩, rfl⟩
    · exact ⟨_, .unreadable unread, RunError.text_unreadable path _⟩
    · exact ⟨_, .undecodable read undecoded, RunError.text_unreadable path .notText⟩
  · next readText =>
    split at failed
    · next unparsed =>
      cases failed
      obtain ⟨content, read, decoded⟩ := Files.text_eq_ok.mp readText
      exact ⟨_, .unparsable read decoded unparsed, RunError.text_unparsable path _⟩
    · cases failed

theorem holds_of_load_eq_ok (loaded : load files path = .ok m) : files.Holds path m := by
  unfold load at loaded
  split at loaded
  · cases loaded
  · next readText =>
    split at loaded
    · cases loaded
    · next parsed =>
      cases loaded
      obtain ⟨content, read, decoded⟩ := Files.text_eq_ok.mp readText
      exact ⟨rfl, content, _, read, decoded, parsed⟩

/-- Either all inputs are loaded, or loading ends with the error of the first bad one. -/
theorem loadAll_cases (files : Files) (inputs : List String) :
    (∃ modules, List.Forall₂ files.Holds inputs modules ∧
      (loadAll files inputs).2 = .ok modules) ∨
    ∃ before path after words e, inputs = before ++ path :: after ∧
      (∀ earlier ∈ before, ∃ m, files.Holds earlier m) ∧ files.Bad path words ∧
      e.text = "Error: " ++ words ∧ (loadAll files inputs).2 = .error e := by
  induction inputs with
  | nil => exact .inl ⟨[], .nil, rfl⟩
  | cons path inputs ih =>
    cases loaded : load files path with
    | error e =>
      obtain ⟨words, bad, said⟩ := bad_of_load_eq_error loaded
      refine .inr ⟨[], path, inputs, words, e, rfl, by simp, bad, said, ?_⟩
      simp only [loadAll, loaded]
    | ok m =>
      have held := holds_of_load_eq_ok loaded
      rcases ih with ⟨modules, all, result⟩ |
        ⟨before, bad, after, words, e, split, good, isBad, said, result⟩
      · refine .inl ⟨m :: modules, .cons held all, ?_⟩
        simp only [loadAll, loaded, result, Except.map]
      · refine .inr ⟨path :: before, bad, after, words, e, by rw [split]; rfl, ?_, isBad, said, ?_⟩
        · intro earlier mem
          rcases List.mem_cons.mp mem with rfl | mem
          · exact ⟨m, held⟩
          · exact good earlier mem
        · simp only [loadAll, loaded, result, Except.map]

end Inputs

/-! ## Functions -/

section Functions

variable {compare : Comparison} {options : Options} {path : String} {f : Func}

theorem firstPass_eq (mode : AliasMode) (f : Func) :
    firstPass mode f = reuse (mode.oracle f) f := by
  cases mode <;> rfl

theorem secondPass_eq (mode : AliasMode) (f : Func) :
    secondPass mode f = reuse (mode.oracle f) (reuse (mode.oracle f) f).func := by
  cases mode <;> rfl

theorem functionOutput_eq_outputOnce :
    functionOutput compare options path f (firstPass options.aliasMode f).func =
      outputOnce compare options (path, f) := by
  have behind : " (after " ++ (passName ++ ")") = " (after local-cse)" := rfl
  simp only [functionOutput, outputOnce, String.append_assoc, behind]

/-- A function that is settled, or need not be, is printed as one pass leaves it. -/
theorem processAll_cons_of_settled
    (settled : options.verifySettled = true → ¬ ChangesAgain options f)
    (rest : List (String × Func)) :
    (processAll compare options ((path, f) :: rest)).stdout =
        outputOnce compare options (path, f) ++ (processAll compare options rest).stdout ∧
      (processAll compare options ((path, f) :: rest)).error =
        (processAll compare options rest).error := by
  rw [← functionOutput_eq_outputOnce, firstPass_eq]
  cases verify : options.verifySettled with
  | false => simp [processAll, verify]
  | true =>
    have unchanged := Bool.eq_false_iff.mpr (settled verify)
    rw [secondPass_eq] at unchanged
    have same := func_reuse_of_modified_eq_false unchanged
    simp [processAll, verify, unchanged, same]

theorem processAll_cons_of_changesAgain (verify : options.verifySettled = true)
    (changes : ChangesAgain options f) (rest : List (String × Func)) :
    (processAll compare options ((path, f) :: rest)).stdout = "" ∧
      (processAll compare options ((path, f) :: rest)).error = some (.notSettled f.name path) := by
  rw [ChangesAgain, secondPass_eq] at changes
  simp [processAll, verify, changes]

/-- The functions in front of the first one that is not settled are printed, or all of them. -/
theorem processAll_cases (compare : Comparison) (options : Options)
    (functions : List (String × Func)) :
    ∃ done rest, functions = done ++ rest ∧
      (processAll compare options functions).stdout =
        String.join (done.map (outputOnce compare options)) ∧
      (options.verifySettled = true → ∀ p ∈ done, ¬ ChangesAgain options p.2) ∧
      (rest = [] ∧ (processAll compare options functions).error = none ∨
        options.verifySettled = true ∧ ∃ path f later, rest = (path, f) :: later ∧
          ChangesAgain options f ∧
          (processAll compare options functions).error = some (.notSettled f.name path)) := by
  induction functions with
  | nil => exact ⟨[], [], rfl, rfl, by simp, .inl ⟨rfl, rfl⟩⟩
  | cons p functions ih =>
    obtain ⟨path, f⟩ := p
    by_cases settled : options.verifySettled = true → ¬ ChangesAgain options f
    · obtain ⟨done, rest, split, stdout, quiet, ends⟩ := ih
      obtain ⟨stdoutStep, errorStep⟩ :=
        @processAll_cons_of_settled compare options path f settled functions
      refine ⟨(path, f) :: done, rest, by rw [split]; rfl, ?_, ?_, ?_⟩
      · rw [stdoutStep, stdout, List.map_cons, String.join_cons]
      · intro verify p mem
        rcases List.mem_cons.mp mem with rfl | mem
        · exact settled verify
        · exact quiet verify p mem
      · rw [errorStep]
        exact ends
    · obtain ⟨verify, changes⟩ : options.verifySettled = true ∧ ChangesAgain options f := by
        simpa using settled
      obtain ⟨stdout, error⟩ :=
        @processAll_cons_of_changesAgain compare options path f verify changes functions
      exact ⟨[], (path, f) :: functions, rfl, stdout, by simp,
        .inr ⟨verify, path, f, functions, rfl, changes, error⟩⟩

end Functions

/-! ## Runs -/

section Runs

variable {compare : Comparison} {logger : Logger} {options : Options}
  {environment : Option String} {files : Files}

theorem process_of_error {e : RunError} (failed : (loadAll files options.inputs).2 = .error e) :
    (process compare options files).stdout = "" ∧
      (process compare options files).error = some e := by
  unfold process
  split
  · next reached =>
    rw [reached] at failed
    cases failed
    exact ⟨rfl, rfl⟩
  · next reached =>
    rw [reached] at failed
    cases failed

theorem process_of_ok {modules : List Module}
    (loaded : (loadAll files options.inputs).2 = .ok modules) :
    (process compare options files).stdout =
        (processAll compare options (allFunctions modules)).stdout ∧
      (process compare options files).error =
        (processAll compare options (allFunctions modules)).error := by
  unfold process
  split
  · next reached =>
    rw [reached] at loaded
    cases loaded
  · next reached =>
    rw [reached] at loaded
    cases loaded
    exact ⟨rfl, rfl⟩

theorem runOptions_of_none (finished : (process compare options files).error = none) :
    runOptions compare logger options environment files =
      ⟨0, (process compare options files).stdout,
        logger environment (defaultRequest options.verbosity)
          (process compare options files).log⟩ := by
  rw [runOptions, finished]

/-- The error is said last. -/
theorem runOptions_of_some {e : RunError}
    (failed : (process compare options files).error = some e) :
    runOptions compare logger options environment files =
      ⟨1, (process compare options files).stdout,
        logger environment (defaultRequest options.verbosity) (process compare options files).log ++
          e.text ++ "\n"⟩ := by
  rw [runOptions, failed]

end Runs

/-- However changes and messages are shown: if an input cannot be read or parsed, nothing is
printed, and the error names the first such input. Otherwise what is printed is the output of each
function of the inputs behind one pass, in order: of all functions without verification, and with
it, of those in front of the first function that a second pass changes, which the error names. -/
theorem stdout_runOptions (compare : Comparison) (logger : Logger) (options : Options)
    (environment : Option String) (files : Files) :
    let output := runOptions compare logger options environment files
    let shown := logger environment (defaultRequest options.verbosity)
    ((∃ path ∈ options.inputs, ∃ words, files.Bad path words) →
      output.stdout = "" ∧ output.code = 1 ∧
        ∃ before path after words log, options.inputs = before ++ path :: after ∧
          (∀ earlier ∈ before, ∃ m, files.Holds earlier m) ∧ files.Bad path words ∧
          output.stderr = shown log ++ "Error: " ++ words ++ "\n") ∧
    ((¬ ∃ path ∈ options.inputs, ∃ words, files.Bad path words) →
      ∃ modules functions, List.Forall₂ files.Holds options.inputs modules ∧
        functions = modules.flatMap (fun m => m.functions.map fun f => (m.path, f)) ∧
        (options.verifySettled = false →
          output.code = 0 ∧ (∃ log, output.stderr = shown log) ∧
            output.stdout = String.join (functions.map (outputOnce compare options))) ∧
        (options.verifySettled = true →
          ∃ done rest, functions = done ++ rest ∧
            output.stdout = String.join (done.map (outputOnce compare options)) ∧
            (∀ p ∈ done, ¬ ChangesAgain options p.2) ∧
            (output.code = 0 ∧ rest = [] ∧ (∃ log, output.stderr = shown log) ∨
              output.code = 1 ∧ ∃ path f later log, rest = (path, f) :: later ∧
                ChangesAgain options f ∧
                output.stderr = shown log ++ "Error: local-cse is not idempotent on @" ++
                  f.name ++ " in " ++ path ++ "\n"))) := by
  intro output shown
  rcases loadAll_cases files options.inputs with
    ⟨modules, all, loaded⟩ | ⟨before, path, after, words, e, split, good, bad, said, failed⟩
  · refine ⟨?_, fun _ => ⟨modules, allFunctions modules, all, rfl, ?_⟩⟩
    · rintro ⟨path, mem, words, bad⟩
      exact absurd bad (not_bad_of_forall₂ all mem)
    · obtain ⟨stdout, error⟩ := @process_of_ok compare options files modules loaded
      obtain ⟨done, rest, split, printed, quiet, ends⟩ :=
        processAll_cases compare options (allFunctions modules)
      rw [← stdout] at printed
      rw [← error] at ends
      rcases ends with ⟨rfl, finished⟩ | ⟨verify, path, f, later, rfl, changes, failed⟩
      · have result : output = _ := runOptions_of_none finished
        rw [List.append_nil] at split
        rw [result, split]
        exact ⟨fun _ => ⟨rfl, ⟨_, rfl⟩, printed⟩, fun verify =>
          ⟨done, [], (List.append_nil _).symm, printed, quiet verify, .inl ⟨rfl, rfl, _, rfl⟩⟩⟩
      · have result : output = _ := runOptions_of_some failed
        rw [result]
        refine ⟨fun unverified => ?_, fun _ => ⟨done, _, split, printed, quiet verify, .inr ?_⟩⟩
        · rw [verify] at unverified
          cases unverified
        · refine ⟨rfl, path, f, later, (process compare options files).log, rfl, changes, ?_⟩
          simp only [RunError.text_notSettled, String.append_assoc]
          rfl
  · refine ⟨fun _ => ?_, fun allGood => ?_⟩
    · obtain ⟨stdout, error⟩ := @process_of_error compare options files e failed
      have result : output = _ := runOptions_of_some error
      rw [result]
      refine ⟨stdout, rfl, before, path, after, words, (process compare options files).log, split,
        good, bad, ?_⟩
      simp only [said, String.append_assoc]
      rfl
    · exact absurd ⟨path, by rw [split]; simp, words, bad⟩ allGood

/-- One file, with a loop that one pass does not settle. -/
def loopFiles : Files := fun path =>
  if path = "loop.ir" then .ok crossingPhisText.toByteArray else .error .missing

theorem holds_loopFiles_iff {m : Module} :
    loopFiles.Holds "loop.ir" m ↔ m = ⟨"loop.ir", [crossingPhis]⟩ := by
  have read : loopFiles "loop.ir" = .ok crossingPhisText.toByteArray := if_pos rfl
  have decoded : String.fromUTF8? crossingPhisText.toByteArray = some crossingPhisText := by
    rw [String.fromUTF8?, dif_pos crossingPhisText.isValidUTF8]
    rfl
  constructor
  · rintro ⟨named, content, source, read', decoded', parsed⟩
    cases read.symm.trans read'
    cases decoded.symm.trans decoded'
    cases m
    cases named
    cases parse_crossingPhisText.symm.trans parsed
    rfl
  · rintro rfl
    exact ⟨rfl, _, _, read, decoded, parse_crossingPhisText⟩

theorem text_firstPass_crossingPhis : (firstPass .basic crossingPhis).func.text =
    "fn @f(%x) \x7b\n" ++
    "a:\n  %p = phi [b, %m]\n  %q = phi [b, %m]\n  %s = add %p, %q\n  br b\n" ++
    "b:\n  %m = add %x, 1\n  %n = add %x, 1\n  br a\n\x7d\n" := by
  have lines : (firstPass .basic crossingPhis).func.lines =
      ["fn @f(%x) \x7b", "a:", "  %p = phi [b, %m]", "  %q = phi [b, %m]", "  %s = add %p, %q",
        "  br b", "b:", "  %m = add %x, 1", "  %n = add %x, 1", "  br a", "\x7d"] := by
    decide +kernel
  rw [Func.text, lines]
  decide +kernel

theorem not_bad_loopFiles :
    ¬ ∃ path ∈ ["loop.ir"], ∃ words, loopFiles.Bad path words := by
  rintro ⟨path, mem, words, bad⟩
  cases List.mem_singleton.mp mem
  exact (holds_loopFiles_iff.mpr rfl).not_bad bad

theorem functions_loopFiles {modules : List Module} {functions : List (String × Func)}
    (all : List.Forall₂ loopFiles.Holds ["loop.ir"] modules)
    (each : functions = modules.flatMap fun m => m.functions.map fun f => (m.path, f)) :
    functions = [("loop.ir", crossingPhis)] := by
  obtain _ | ⟨held, _ | _⟩ := all
  rw [each, holds_loopFiles_iff.mp held, List.flatMap_singleton, List.map_singleton]

/-- A run over the loop prints it behind one pass. Verifying, it prints nothing in front of the loop
and names it; with an input behind it that is missing, the loop is not printed either, and the input
is named. -/
theorem stdout_runOptions_loopFiles : ∃ plain verified incomplete,
    plain = runOptions unifiedText filteredLog
      ⟨["loop.ir"], .basic, false, false, 0⟩ none loopFiles ∧
    verified = runOptions unifiedText filteredLog
      ⟨["loop.ir"], .conservative, true, true, 0⟩ none loopFiles ∧
    incomplete = runOptions unifiedText filteredLog
      ⟨["loop.ir", "gone.ir"], .basic, false, false, 0⟩ none loopFiles ∧
    (plain.code = 0 ∧ plain.stdout =
      "fn @f(%x) \x7b\n" ++
      "a:\n  %p = phi [b, %m]\n  %q = phi [b, %m]\n  %s = add %p, %q\n  br b\n" ++
      "b:\n  %m = add %x, 1\n  %n = add %x, 1\n  br a\n\x7d\n") ∧
    (verified.stdout = "" ∧ verified.code = 1 ∧
      ∃ log, verified.stderr = filteredLog none "warn" log ++
        "Error: local-cse is not idempotent on @f in loop.ir\n") ∧
    incomplete.stdout = "" ∧ incomplete.code = 1 ∧
      ∃ log, incomplete.stderr = filteredLog none "warn" log ++
        ("Error: failed to read gone.ir\n\nCaused by:\n" ++
          "    No such file or directory (os error 2)\n") := by
  refine ⟨_, _, _, rfl, rfl, rfl, ?_, ?_, ?_⟩
  · obtain ⟨-, good⟩ := stdout_runOptions unifiedText filteredLog
      ⟨["loop.ir"], .basic, false, false, 0⟩ none loopFiles
    obtain ⟨modules, functions, all, each, prints, -⟩ := good not_bad_loopFiles
    obtain ⟨code, -, stdout⟩ := prints rfl
    rw [functions_loopFiles all each, List.map_singleton] at stdout
    refine ⟨code, stdout.trans ?_⟩
    rw [String.join_cons, String.join_nil, String.append_empty, ← text_firstPass_crossingPhis]
    rfl
  · obtain ⟨-, good⟩ := stdout_runOptions unifiedText filteredLog
      ⟨["loop.ir"], .conservative, true, true, 0⟩ none loopFiles
    obtain ⟨modules, functions, all, each, -, prints⟩ := good not_bad_loopFiles
    obtain ⟨done, rest, split, stdout, quiet, ends⟩ := prints rfl
    rw [functions_loopFiles all each] at split
    have changes : ChangesAgain ⟨["loop.ir"], .conservative, true, true, 0⟩ crossingPhis := by
      decide +kernel
    rcases List.append_eq_singleton_iff.mp split.symm with ⟨rfl, rfl⟩ | ⟨rfl, rfl⟩
    · rcases ends with ⟨-, none, -⟩ | ⟨code, path, f, later, log, same, -, stderr⟩
      · cases none
      · obtain ⟨⟨rfl, rfl⟩, -⟩ : ("loop.ir" = path ∧ crossingPhis = f) ∧ [] = later := by
          simpa using same
        have words : "Error: local-cse is not idempotent on @" ++ ("f" ++ (" in " ++ ("loop.ir" ++
            "\n"))) = "Error: local-cse is not idempotent on @f in loop.ir\n" := by decide
        refine ⟨stdout, code, log, stderr.trans ?_⟩
        simp only [String.append_assoc, ← words]
        rfl
    · exact absurd changes (quiet _ (List.mem_singleton_self _))
  · obtain ⟨bad, -⟩ := stdout_runOptions unifiedText filteredLog
      ⟨["loop.ir", "gone.ir"], .basic, false, false, 0⟩ none loopFiles
    obtain ⟨stdout, code, before, path, after, words, log, split, -, isBad, stderr⟩ :=
      bad ⟨"gone.ir", by simp, _, .unreadable rfl⟩
    refine ⟨stdout, code, log, stderr.trans ?_⟩
    obtain _ | ⟨first, _ | ⟨second, more⟩⟩ := before
    · cases split
      exact absurd ⟨"loop.ir", by simp, words, isBad⟩ not_bad_loopFiles
    · cases split
      cases isBad with
      | unreadable unread =>
        cases unread
        have words : "Error: " ++ ("failed to read " ++ ("gone.ir" ++ ("\n\nCaused by:\n    " ++
            (ReadError.missing.message ++ "\n")))) =
            "Error: failed to read gone.ir\n\nCaused by:\n" ++
            "    No such file or directory (os error 2)\n" := by decide
        simp only [String.append_assoc, words]
        rfl
      | undecodable read => cases read
      | unparsable read => cases read
    · cases more <;> cases split

end BlockReuse.Cli
