import BlockReuse.Ir.Text
import BlockReuse.Log
import BlockReuse.Reuse.Scan

/-!
# Reports — what a pass tells the log

The names in a message are those of the function; a pass changes none of them, so the messages can
be written once it is over.
-/

set_option autoImplicit false

namespace BlockReuse

/-- The level and the words of an event, if it is worth any. -/
def Event.message? (f : Func) : Event → Option (Level × String)
  | memoryWritten writer block removed _ =>
    if removed = 0 then none
    else some (.debug, "[cse] " ++ f.showValue (.inst writer) ++ " invalidated " ++
      toString removed ++ " memory read(s) in " ++ f.showBlock block)
  | newExpression index => some (.trace, "[cse] new expression " ++ f.showValue (.inst index))
  | redirected source target users =>
    some (.debug, "[cse] " ++ f.showValue (.inst source) ++ " = " ++ f.showValue (.inst target) ++
      " (" ++ toString users.length ++ " user(s) rewritten)")

/-- The messages of a pass, in order. -/
def Outcome.messages (o : Outcome) : List (Level × String) :=
  o.events.filterMap (Event.message? o.func)

/-- The part of the program that sends these messages. -/
def passTarget : String := "local_cse::ir::opt::cse"

def Outcome.log (o : Outcome) : List LogRecord :=
  o.messages.map fun (level, message) => ⟨level, passTarget, message⟩

end BlockReuse
