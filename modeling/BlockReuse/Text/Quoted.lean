import BlockReuse.Text.Unshown

/-!
# Quoted characters — how a message shows a single character

The character stands between apostrophes. An apostrophe, a backslash, the usual controls and
everything unshown are escaped; every other character, a quotation mark included, stands for
itself.
-/

set_option autoImplicit false

namespace BlockReuse.Text

/-- A code point in lower-case hexadecimal digits, without leading zeros. -/
def hexText (n : Nat) : String := String.ofList (Nat.toDigits 16 n)

/-- A character as it stands between the apostrophes. -/
def escapeChar (c : Char) : String :=
  if c = '\'' then "\\'"
  else if c = '\\' then "\\\\"
  else if c = '\n' then "\\n"
  else if c = '\t' then "\\t"
  else if c = '\r' then "\\r"
  else if c.toNat = 0 then "\\0"
  else if isUnshown c then "\\u\x7b" ++ hexText c.toNat ++ "\x7d"
  else c.toString

/-- A character between apostrophes. -/
def quoteChar (c : Char) : String := "'" ++ escapeChar c ++ "'"

end BlockReuse.Text
