import BlockReuse.Text.CharRange

/-!
# Ranges of bytes — the bytes that write the characters of a range

A character is written by one to four bytes. The characters of a range fall into a few groups, each
of which is all that can be written by a byte from one range, then a byte from another, and so on.
A group has one number of bytes, and within it all bytes behind the first that is free are free as
well; so the range is cut where the number of bytes changes, at the middle of the code, and at the
multiples of 64, 4096 and 262144 that its ends do not reach.
-/

set_option autoImplicit false

namespace BlockReuse.Text

/-- The bytes from one to another. -/
structure ByteRange where
  low : Nat
  high : Nat
  deriving DecidableEq, Repr

namespace ByteRange

/-- The characters that one number of bytes writes. -/
def plainParts : List CharRange :=
  [⟨0, 0x7f⟩, ⟨0x80, 0x7ff⟩, ⟨0x800, 0xd7ff⟩, ⟨0xe000, 0xffff⟩, ⟨0x10000, lastChar⟩]

/-- How many characters share all bytes but the last one, two or three. -/
def blockSizes : List Nat := [64, 4096, 262144]

/-- Cuts a range into parts that are whole blocks or lie within one. -/
def cut : List Nat → CharRange → List CharRange
  | [], r => [r]
  | size :: larger, r =>
    if r.low / size = r.high / size then [r]
    else
      let start := (r.low + size - 1) / size * size
      let stop := (r.high + 1) / size * size
      let front : List CharRange := if r.low < start then [⟨r.low, start - 1⟩] else []
      let back : List CharRange := if stop ≤ r.high then [⟨stop, r.high⟩] else []
      front ++ (if start < stop then cut larger ⟨start, stop - 1⟩ else []) ++ back

/-- The bytes that write a character. -/
def bytesOf (n : Nat) : List Nat := (String.utf8EncodeChar (Char.ofNat n)).map UInt8.toNat

/-- The ranges of the bytes of a part. -/
def ofPart (r : CharRange) : List ByteRange :=
  List.zipWith ByteRange.mk (bytesOf r.low) (bytesOf r.high)

/-- The groups of a range of characters, each by the ranges of its bytes. -/
def sequences (r : CharRange) : List (List ByteRange) :=
  (plainParts.filterMap r.overlap?).flatMap fun part =>
    if part.high < 128 then [[⟨part.low, part.high⟩]] else (cut blockSizes part).map ofPart

end ByteRange

end BlockReuse.Text
