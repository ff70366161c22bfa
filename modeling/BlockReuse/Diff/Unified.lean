import BlockReuse.Diff.Edit

/-!
# Unified diffs — the changed lines with some lines around them

Three kept lines are shown on either side of a change. A hunk is a longest run of shown lines, so
two changes with at most six kept lines between them share one.
-/

set_option autoImplicit false

namespace BlockReuse.Diff

/-- How many kept lines are shown next to a change. -/
def contextSize : Nat := 3

/-- Which edits are changes or stand close behind one, `left` being the kept lines still to show
behind the last change. -/
def behindChange : Nat → List Edit → List Bool
  | _, [] => []
  | left, e :: rest =>
    if e.isKeep then decide (0 < left) :: behindChange (left - 1) rest
    else true :: behindChange contextSize rest

/-- Which edits are shown. -/
def shown (edits : List Edit) : List Bool :=
  List.zipWith (· || ·) (behindChange 0 edits) (behindChange 0 edits.reverse).reverse

/-- An edit, and how many old and new lines stand in front of it. -/
structure Placed where
  edit : Edit
  oldLine : Nat
  newLine : Nat

/-- Places edits from given numbers of old and new lines on. -/
def place (oldLine newLine : Nat) : List Edit → List Placed
  | [] => []
  | e :: rest =>
    ⟨e, oldLine, newLine⟩ ::
      match e with
      | .keep _ => place (oldLine + 1) (newLine + 1) rest
      | .delete _ => place (oldLine + 1) newLine rest
      | .insert _ => place oldLine (newLine + 1) rest

/-- The longest runs of shown edits. -/
def hunks (edits : List Edit) : List (List Placed) :=
  let marked := (place 0 0 edits).zip (shown edits)
  let runs := marked.splitBy fun a b => a.2 == b.2
  (runs.filter fun run => run.any fun p => p.2).map fun run => run.map Prod.fst

def Edit.text : Edit → String
  | keep line => " " ++ line
  | delete line => "-" ++ line
  | insert line => "+" ++ line

/-- A range of lines: the first, counted from one, and how many there are, unless it is one. An
empty range is named by the line in front of it. -/
def rangeText (first count : Nat) : String :=
  if count = 1 then toString (first + 1)
  else if count = 0 then toString first ++ ",0"
  else toString (first + 1) ++ "," ++ toString count

/-- The lines of a hunk. -/
def hunkLines (hunk : List Placed) : List String :=
  let old := hunk.countP fun p => match p.edit with | .insert _ => false | _ => true
  let new := hunk.countP fun p => match p.edit with | .delete _ => false | _ => true
  let firstOld := (hunk.head?.map Placed.oldLine).getD 0
  let firstNew := (hunk.head?.map Placed.newLine).getD 0
  ("@@ -" ++ rangeText firstOld old ++ " +" ++ rangeText firstNew new ++ " @@") ::
    hunk.map fun p => p.edit.text

/-- The lines of a unified diff: none where nothing changes. -/
def unified (oldHeader newHeader : String) (old new : List String) : List String :=
  match hunks (edits old new) with
  | [] => []
  | hs => ("--- " ++ oldHeader) :: ("+++ " ++ newHeader) :: hs.flatMap hunkLines

end BlockReuse.Diff
