import BlockReuse.Log
import BlockReuse.Text.Blank
import BlockReuse.Text.Parts
import BlockReuse.Text.Pattern.Meaning

/-!
# Log filters — which messages a written request asks for

A request such as `info,parser=trace/token` is a list of rules and, behind a slash, a pattern. A
rule sets a limit for the parts of the program whose names start with its own, or for all of them.
For each part the rule with the longest name decides, of two with equally long names the later
one. What cannot be understood is left out and reported.
-/

set_option autoImplicit false

namespace BlockReuse

/-! ## Rules -/

/-- How much is shown of some parts of the program, or of all of them. -/
structure LogRule where
  target : Option String
  limit : LogLimit
  deriving DecidableEq, Repr

namespace LogRule

/-- Whether a rule is about a part of the program. -/
def appliesTo (rule : LogRule) (target : String) : Bool :=
  rule.target.all fun name => name.toList.isPrefixOf target.toList

/-- How closely a rule names the parts it is about. -/
def precision (rule : LogRule) : Nat := (rule.target.map String.utf8ByteSize).getD 0

/-- Adds a rule. An earlier rule for the same parts gives its place to it. -/
def insert (rule : LogRule) : List LogRule → List LogRule
  | [] => [rule]
  | first :: rest =>
    if first.target = rule.target then rule :: rest else first :: rule.insert rest

/-- The more precise of a rule and one that may stand in front of it. -/
def orBetter (earlier : Option LogRule) (rule : LogRule) : LogRule :=
  (earlier.filter fun e => decide (rule.precision < e.precision)).getD rule

/-- The rule that decides about a part of the program. -/
def deciding? (rules : List LogRule) (target : String) : Option LogRule :=
  (rules.filter (·.appliesTo target)).foldl (fun best rule => some (orBetter best rule)) none

end LogRule

/-! ## Filters -/

/-- Which messages are shown. -/
structure LogFilter where
  rules : List LogRule
  pattern : Option Text.Pattern

namespace LogFilter

def shows (filter : LogFilter) (r : LogRecord) : Bool :=
  (LogRule.deciding? filter.rules r.target).any (fun rule => rule.limit.shows r.level) &&
    filter.pattern.all fun p => p.matchesIn r.message

end LogFilter

/-! ## Requests -/

/-- What cannot be understood in a request. -/
inductive FilterFault where
  | manyPatterns (request : String)
  | manyLimits (rule : String)
  | unknownLimit (word : String)
  | badPattern (written : String) (error : Text.PatternError)
  deriving DecidableEq, Repr

def FilterFault.message : FilterFault → String
  | manyPatterns request => "invalid logging spec '" ++ request ++ "' (too many '/'s)"
  | manyLimits rule => "invalid logging spec '" ++ rule ++ "'"
  | unknownLimit word => "invalid logging spec '" ++ word ++ "'"
  | badPattern written error => "invalid regex filter - " ++ error.message written

/-- The warning about something that is left out. -/
def FilterFault.warning (fault : FilterFault) : String :=
  "warning: " ++ fault.message ++ ", ignoring it"

/-- Reads one rule: a limit, a name, or both with an equals sign between them. A name without a
limit asks for everything. -/
def LogRule.read (written : List Char) : Except FilterFault LogRule :=
  let name := String.ofList (written.takeWhile (· ≠ '='))
  match written.dropWhile (· ≠ '=') with
  | [] =>
    match LogLimit.ofText? name with
    | some limit => .ok ⟨none, limit⟩
    | none => .ok ⟨some name, some .trace⟩
  | _ :: value =>
    let word := String.ofList (Text.trimBlanks value)
    if value.contains '=' then .error (.manyLimits (String.ofList written))
    else if word = "" then .ok ⟨some name, some .trace⟩
    else
      match LogLimit.ofText? word with
      | some limit => .ok ⟨some name, limit⟩
      | none => .error (.unknownLimit word)

/-- Reads rules, and reports those that cannot be understood. -/
def LogRule.readAll : List (List Char) → List LogRule × List FilterFault
  | [] => ([], [])
  | written :: rest =>
    let (rules, faults) := readAll rest
    match LogRule.read written with
    | .ok rule => (rule :: rules, faults)
    | .error fault => (rules, fault :: faults)

namespace LogFilter

/-- The rules in force when so many have been asked for: without any, only errors are shown. -/
def settle (asked : List LogRule) : List LogRule :=
  match asked.foldl (fun rules rule => rule.insert rules) [] with
  | [] => [⟨none, some .error⟩]
  | rules => rules

/-- Reads the rules of a request, which have commas between them. -/
def readRules (written : List Char) : List LogRule × List FilterFault :=
  let items := ((Text.parts ',' written).map Text.trimBlanks).filter (· ≠ [])
  let (asked, faults) := LogRule.readAll items
  (settle asked, faults)

/-- Reads a request. -/
def read (request : String) : LogFilter × List FilterFault :=
  match Text.parts '/' request.toList with
  | [rules] =>
    let (rules, faults) := readRules rules
    (⟨rules, none⟩, faults)
  | [rules, written] =>
    let (rules, faults) := readRules rules
    let written := String.ofList written
    match Text.Pattern.read written with
    | .ok pattern => (⟨rules, some pattern⟩, faults)
    | .error e => (⟨rules, none⟩, faults ++ [.badPattern written e])
  | _ => (⟨settle [], none⟩, [.manyPatterns request])

end LogFilter

/-- A log of the messages that a request asks for, behind what is wrong with the request. -/
def filteredLog : Logger := fun environment otherwise records =>
  let (filter, faults) := LogFilter.read (environment.getD otherwise)
  let warnings := faults.map fun fault => fault.warning ++ "\n"
  String.join (warnings ++ (records.filter filter.shows).map LogRecord.text)

end BlockReuse
