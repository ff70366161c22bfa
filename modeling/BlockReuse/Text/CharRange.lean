/-!
# Ranges of characters — sets as lists of ranges in order

A set of characters is a list of ranges, the lowest first, with a gap between any two. Putting a
range into a set joins it with every range that it touches (`holds_insert`).

The numbers between the two halves of the code, which are no characters, are stepped over by
`following` and `preceding`. Two ranges on either side of them do not touch.
-/

set_option autoImplicit false

namespace BlockReuse.Text

/-- The number of the last character. -/
def lastChar : Nat := 0x10ffff

/-- The number of the character behind one. -/
def following (n : Nat) : Nat := if n = 0xd7ff then 0xe000 else n + 1

/-- The number of the character in front of one. -/
def preceding (n : Nat) : Nat := if n = 0xe000 then 0xd7ff else n - 1

/-- The characters from one to another, by their numbers. -/
structure CharRange where
  low : Nat
  high : Nat
  deriving DecidableEq, Repr

namespace CharRange

/-- The characters between two, in either order. -/
def between (a b : Nat) : CharRange := ⟨min a b, max a b⟩

/-- A single character. -/
def single (c : Char) : CharRange := ⟨c.toNat, c.toNat⟩

def contains (r : CharRange) (c : Char) : Bool := decide (r.low ≤ c.toNat ∧ c.toNat ≤ r.high)

/-- What two ranges have in common. -/
def overlap? (a b : CharRange) : Option CharRange :=
  let low := max a.low b.low
  let high := min a.high b.high
  if low ≤ high then some ⟨low, high⟩ else none

end CharRange

/-- A set of characters. -/
abbrev CharRanges := List CharRange

namespace CharRanges

/-- Whether a character is in the set. -/
def holds (set : CharRanges) (c : Char) : Bool := set.any (·.contains c)

/-- The set with a range more. -/
def insert (r : CharRange) : CharRanges → CharRanges
  | [] => [r]
  | q :: rest =>
    if r.high + 1 < q.low then r :: q :: rest
    else if q.high + 1 < r.low then q :: insert r rest
    else insert ⟨min r.low q.low, max r.high q.high⟩ rest

/-- A range that is put into a set is in it, with all that was there. -/
theorem holds_insert (r : CharRange) (set : CharRanges) (c : Char) :
    (insert r set).holds c = (r.contains c || set.holds c) := by
  induction set generalizing r with
  | nil => simp [insert, holds]
  | cons q rest ih =>
    have joined (apart : ¬ r.high + 1 < q.low) (behind : ¬ q.high + 1 < r.low) :
        CharRange.contains ⟨min r.low q.low, max r.high q.high⟩ c =
          (r.contains c || q.contains c) := by
      simp only [CharRange.contains, ← Bool.decide_or, decide_eq_decide]
      omega
    unfold insert
    split
    · rfl
    · next apart =>
      split
      · have := ih r
        simp only [holds, List.any_cons] at this ⊢
        rw [this, Bool.or_left_comm]
      · next behind =>
        rw [ih, joined apart behind]
        simp [holds, Bool.or_assoc]

/-- The set of ranges in any order. -/
def ofList (ranges : List CharRange) : CharRanges := ranges.foldl (fun set r => insert r set) []

/-- What is in one of two sets. -/
def union (a b : CharRanges) : CharRanges := b.foldl (fun set r => insert r set) a

/-- What is in both sets. -/
def intersection (a b : CharRanges) : CharRanges :=
  a.flatMap fun r => b.filterMap r.overlap?

/-- What a set leaves of a range. -/
def leftOf (r : CharRange) : CharRanges → CharRanges
  | [] => [r]
  | q :: rest =>
    if (r.overlap? q).isNone then leftOf r rest
    else
      (if r.low < q.low then [⟨r.low, preceding q.low⟩] else []) ++
        (if q.high < r.high then leftOf ⟨following q.high, r.high⟩ rest else [])

/-- What is in the first set and not in the second. -/
def difference (a b : CharRanges) : CharRanges := a.flatMap fun r => leftOf r b

/-- What is in one of two sets only. -/
def symmetricDifference (a b : CharRanges) : CharRanges :=
  (a.union b).difference (a.intersection b)

/-- The gaps in a set from a character on, which is in the set. -/
def gapsBehind (high : Nat) : CharRanges → CharRanges
  | [] => if high < lastChar then [.between (following high) lastChar] else []
  | q :: rest => .between (following high) (preceding q.low) :: gapsBehind q.high rest

/-- The gaps in a set. Where two ranges have nothing but the middle of the code between them, the
gap is taken for the characters on its two sides. -/
def complement : CharRanges → CharRanges
  | [] => [⟨0, lastChar⟩]
  | q :: rest =>
    (if 0 < q.low then [.between 0 (preceding q.low)] else []) ++ gapsBehind q.high rest

/-- The ASCII letters of a range in the other case. -/
def otherCase (r : CharRange) : List CharRange :=
  let lower := r.overlap? ⟨'a'.toNat, 'z'.toNat⟩
  let upper := r.overlap? ⟨'A'.toNat, 'Z'.toNat⟩
  (lower.map fun q => ⟨q.low - 32, q.high - 32⟩).toList ++
    (upper.map fun q => ⟨q.low + 32, q.high + 32⟩).toList

/-- The set with both cases of its ASCII letters. -/
def withCases (set : CharRanges) : CharRanges := set.union (set.flatMap otherCase)

/-- Whether all members are ASCII characters. -/
def isAscii (set : CharRanges) : Bool := set.all fun r => decide (r.high < 128)

end CharRanges

end BlockReuse.Text
