/-!
# Positions — where in a source something stands

Lines and columns count from zero and are shown counting from one. A column counts characters.
-/

set_option autoImplicit false

namespace BlockReuse.Source

/-- A line and a column. -/
structure Position where
  line : Nat
  column : Nat
  deriving DecidableEq, Repr, Inhabited

namespace Position

/-- The start of a source. -/
def start : Position := ⟨0, 0⟩

/-- The start of the following line. -/
def nextLine (p : Position) : Position := ⟨p.line + 1, 0⟩

/-- The position `n` characters further on the same line. -/
def right (p : Position) (n : Nat) : Position := ⟨p.line, p.column + n⟩

/-- How a message names the position. -/
def text (p : Position) : String := toString (p.line + 1) ++ ":" ++ toString (p.column + 1)

end Position

/-- Something at a position. -/
structure Located (α : Type) where
  value : α
  position : Position
  deriving DecidableEq, Repr

namespace Located

variable {α β : Type}

/-- A message with its position in front. -/
def message (describe : α → String) (x : Located α) : String :=
  x.position.text ++ ": " ++ describe x.value

def map (g : α → β) (x : Located α) : Located β := ⟨g x.value, x.position⟩

end Located

end BlockReuse.Source
