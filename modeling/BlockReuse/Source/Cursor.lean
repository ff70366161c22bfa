import BlockReuse.Source.Reading

/-!
# Cursors — reading a fixed list of tokens step by step

A cursor is a list of tokens and the number of tokens in front of it. Any parser can be run at a
cursor; after a failure the cursor stands where the parser stopped. Stepping is not checked
against the end of the list: behind the last token there is nothing to read, however far.
-/

set_option autoImplicit false

namespace BlockReuse.Source

/-- A list of tokens and the number of tokens already passed. -/
structure Cursor where
  tokens : List Token
  passed : Nat
  deriving DecidableEq, Repr

namespace Cursor

def ofTokens (tokens : List Token) : Cursor := ⟨tokens, 0⟩

/-- The tokens from the cursor on. -/
def rest (c : Cursor) : List Token := c.tokens.drop c.passed

/-- The token `offset` places behind the cursor. -/
def peek? (c : Cursor) (offset : Nat) : Option Token := c.tokens[c.passed + offset]?

def current? (c : Cursor) : Option Token := c.peek? 0

/-- The cursor one place further. -/
def advance (c : Cursor) : Cursor := { c with passed := c.passed + 1 }

def currentIs (c : Cursor) (kind : TokenKind) : Bool :=
  c.current?.any fun t => decide (t.kind = kind)

/-- The cursor when `left` tokens are left of those it has now. -/
def leaving (c : Cursor) (left : List Token) : Cursor :=
  { c with passed := c.passed + (c.rest.length - left.length) }

/-- Runs a parser: its answer, and the cursor where it stopped. -/
def run {α : Type} (c : Cursor) (p : Parser α) : Except (Located ParseError) α × Cursor :=
  match p c.rest with
  | .ok (a, left) => (.ok a, c.leaving left)
  | .error failure => (.error (failure.located c.tokens), c.leaving failure.rest)

end Cursor

end BlockReuse.Source
