import BlockReuse.Source.Position

/-!
# Tokens — the words of the textual form
-/

set_option autoImplicit false

namespace BlockReuse.Source

/-- The classes of tokens. -/
inductive TokenKind where
  | identifier
  | localName
  | globalName
  | number
  | openBracket
  | closeBracket
  | openParen
  | closeParen
  | openBrace
  | closeBrace
  | comma
  | colon
  | equals
  deriving DecidableEq, Repr

/-- The character in front of a name, which is no part of the name. -/
def TokenKind.sigil : TokenKind → List Char
  | localName => ['%']
  | globalName => ['@']
  | _ => []

/-- A token: its class, its text without a sigil, and the position of its first character, which
for a name is the sigil. -/
structure Token where
  kind : TokenKind
  text : String
  position : Position
  deriving DecidableEq, Repr

/-- The characters of a token as they stand in the source. -/
def Token.written (t : Token) : List Char := t.kind.sigil ++ t.text.toList

/-- Whether a token is a given word. -/
def Token.isWord (t : Token) (word : String) : Bool :=
  decide (t.kind = .identifier) && t.text == word

end BlockReuse.Source
