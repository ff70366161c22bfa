/-!
# Edits — turning one list of lines into another with as many lines kept as possible

A script is a list of edits that reads the old lines and writes the new ones. The best script for
two lists is found from the best scripts for their ends: equal first lines are kept, and otherwise
either the first old line is deleted or the first new one inserted, whichever keeps more lines.

The scripts for one end of the old lines and every end of the new lines form a row; a row is
computed from the row for the next shorter end of the old lines, so each pair of ends is looked at
once.
-/

set_option autoImplicit false

namespace BlockReuse.Diff

/-- What happens to one line. -/
inductive Edit where
  | keep (line : String)
  | delete (line : String)
  | insert (line : String)
  deriving DecidableEq, Repr

def Edit.isKeep : Edit → Bool
  | keep _ => true
  | _ => false

/-- Edits, and how many of them keep a line. -/
structure Script where
  kept : Nat
  edits : List Edit
  deriving Inhabited

namespace Script

def keep (line : String) (s : Script) : Script := ⟨s.kept + 1, .keep line :: s.edits⟩

def delete (line : String) (s : Script) : Script := { s with edits := .delete line :: s.edits }

def insert (line : String) (s : Script) : Script := { s with edits := .insert line :: s.edits }

end Script

/-- The row for no old lines: insert every new one. -/
def lastRow : List String → List Script
  | [] => [⟨0, []⟩]
  | y :: ys =>
    let row := lastRow ys
    (row.headD default).insert y :: row

/-- The row with the old line `x` in front of the old lines of the row `below`. -/
def rowAbove (x : String) : List String → List Script → List Script
  | y :: ys, down :: below =>
    let row := rowAbove x ys below
    let right := row.headD default
    (if x = y then (below.headD default).keep x
      else if right.kept ≤ down.kept then down.delete x
      else right.insert y) :: row
  | _, below => [(below.headD default).delete x]

/-- The row for all old lines. -/
def row (new : List String) : List String → List Script
  | [] => lastRow new
  | x :: old => rowAbove x new (row new old)

/-- Puts the deletions between two kept lines in front of the insertions, `inserted` being the
insertions since the last kept line. -/
def deletionsFirst (inserted : List String) : List Edit → List Edit
  | [] => inserted.map .insert
  | .keep line :: rest => inserted.map .insert ++ .keep line :: deletionsFirst [] rest
  | .delete line :: rest => .delete line :: deletionsFirst inserted rest
  | .insert line :: rest => deletionsFirst (inserted ++ [line]) rest

/-- The edits from the old lines to the new ones. -/
def edits (old new : List String) : List Edit :=
  deletionsFirst [] ((row new old).headD default).edits

end BlockReuse.Diff
