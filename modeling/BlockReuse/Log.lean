import BlockReuse.Text.Controls

/-!
# Log — messages with a level

A message is shown when its level is at most the limit in force. It is shown without the controls
of a terminal that may be in it.
-/

set_option autoImplicit false

namespace BlockReuse

/-- How much a message matters, from most to least. -/
inductive Level where
  | error | warn | info | debug | trace
  deriving DecidableEq, Repr

namespace Level

def all : List Level := [error, warn, info, debug, trace]

def name : Level → String
  | error => "ERROR"
  | warn => "WARN"
  | info => "INFO"
  | debug => "DEBUG"
  | trace => "TRACE"

/-- The place of a level; a larger one is more detailed. -/
def detail : Level → Nat
  | error => 1
  | warn => 2
  | info => 3
  | debug => 4
  | trace => 5

end Level

/-- The most detailed level that is shown, if any is. -/
abbrev LogLimit := Option Level

namespace LogLimit

/-- The limit a word names, in letters of either case. -/
def ofText? (word : String) : Option LogLimit :=
  if word.toUpper = "OFF" then some none
  else (Level.all.find? fun level => level.name == word.toUpper).map some

def shows (limit : LogLimit) (level : Level) : Bool :=
  limit.any fun l => decide (level.detail ≤ l.detail)

end LogLimit

/-- A message, its level, and the part of the program that sent it. -/
structure LogRecord where
  level : Level
  target : String
  message : String
  deriving DecidableEq, Repr

namespace LogRecord

/-- A message as it stands behind its head: further lines are indented by four places. -/
def indented (message : String) : String :=
  String.ofList (message.toList.flatMap fun c => if c = '\n' then c :: "    ".toList else [c])

/-- A record as it is shown, with the end of its line: the level takes five places. -/
def text (r : LogRecord) : String :=
  let padding := String.ofList (List.replicate (5 - r.level.name.length) ' ')
  Text.withoutControls
    ("[" ++ r.level.name ++ padding ++ " " ++ r.target ++ "] " ++ indented r.message ++ "\n")

end LogRecord

/-- How messages are shown, under a request for them that the environment may hold and one that is
in force otherwise. -/
abbrev Logger := Option String → String → List LogRecord → String

end BlockReuse
