import BlockReuse.Text.ByteRange
import BlockReuse.Text.Parts
import BlockReuse.Text.Pattern.Shape
import Std.Data.HashMap

/-!
# Automata — how large the machines that search for a shape are

A shape is searched for by an automaton over bytes that reads forwards, and the start of what was
found by one that reads backwards. Here is counted what building them takes: the states, in the
order in which they are built, and what states that lead to several others hold besides. A machine
that grows beyond the limit is given up (`fits`).

A set of characters beyond ASCII is written by groups of bytes. Forwards, the groups of a set share
the states for the same ends, and backwards those for the same starts. A state that may be shared is
remembered in a table of a fixed number of places, where a later one may take its place; whether it
does depends on the numbers of the states, so equal parts of a shape need not have one size.
-/

set_option autoImplicit false

namespace BlockReuse.Text.Pattern

/-! ## Growing -/

/-- What has been built: the number of states, and the bytes that they hold besides. -/
structure Built where
  states : Nat
  held : Nat
  deriving DecidableEq, Repr

namespace Built

def start : Built := ⟨0, 0⟩

/-- The bytes of a state. -/
def stateSize : Nat := 32

/-- The bytes of a step that a state can take on certain bytes. -/
def stepSize : Nat := 8

/-- The bytes of a way from a state to another that takes no byte. -/
def linkSize : Nat := 4

/-- All bytes. -/
def size (b : Built) : Nat := b.states * stateSize + b.held

def add (a b : Built) : Built := ⟨a.states + b.states, a.held + b.held⟩

end Built

/-- Building on, as long as the limit is kept. -/
abbrev Growth := Built → Option Built

namespace Growth

/-- Adds states that hold so many bytes. -/
def add (states held : Nat) : Growth := fun b =>
  let more : Built := b.add ⟨states, held⟩
  if sizeLimit < more.size then none else some more

/-- Adds a state that leads to so many others. -/
def fork (ways : Nat) : Growth := add 1 (ways * Built.linkSize)

/-- One behind the other. -/
def followedBy (first second : Growth) : Growth := fun b => (first b).bind second

/-- The same so many times. -/
def times (step : Growth) : Nat → Growth
  | 0, b => some b
  | n + 1, b =>
    match step b with
    | some b => times step n b
    | none => none

end Growth

/-! ## Sets of characters -/

/-- A table of states by what they are built from. Each place holds the last one that was put
there. -/
structure Memory where
  places : Nat
  entries : Std.HashMap Nat (List Nat × Nat)

namespace Memory

/-- A table without entries. -/
def ofPlaces (places : Nat) : Memory := ⟨places, ∅⟩

/-- The place for a key. -/
def place (m : Memory) (key : List Nat) : Nat :=
  let mixed : UInt64 :=
    key.foldl (fun h n => (h ^^^ UInt64.ofNat n) * 1099511628211) 14695981039346656037
  mixed.toNat % m.places

/-- The state for a key, if it is still there. -/
def find? (m : Memory) (key : List Nat) : Option Nat :=
  match m.entries[m.place key]? with
  | some (known, state) => if known = key then some state else none
  | none => none

def put (m : Memory) (key : List Nat) (state : Nat) : Memory :=
  { m with entries := m.entries.insert (m.place key) (key, state) }

end Memory

/-- Building states that may be shared. -/
abbrev Sharing := StateT (Built × Memory) Option

/-- The state for a key, which is built to hold so many bytes if it is not there. -/
def stateFor (key : List Nat) (held : Nat) : Sharing Nat := fun (b, memory) =>
  match memory.find? key with
  | some state => some (state, b, memory)
  | none => (Growth.add 1 held b).map fun more => (b.states, more, memory.put key b.states)

/-- A step on certain bytes to a state. -/
structure Step where
  bytes : ByteRange
  target : Nat

/-- A state that is still to get steps: those it has, and the bytes of the last one, whose target is
not built yet. -/
structure OpenState where
  steps : List Step
  last : Option ByteRange

namespace OpenState

/-- The steps, the last of which leads to a target. -/
def closed (s : OpenState) (target : Nat) : List Step :=
  s.steps ++ (s.last.map fun bytes => ⟨bytes, target⟩).toList

end OpenState

/-- The state with given steps. -/
def stateOf (steps : List Step) : Sharing Nat :=
  stateFor (steps.flatMap fun s => [s.bytes.low, s.bytes.high, s.target])
    (steps.length * Built.stepSize)

/-- Builds the open states of a path, the last one first, but for so many and the one behind them;
that one gets its last target. -/
def closePath (kept : Nat) : List OpenState → Nat → Sharing (List OpenState)
  | [], _ => pure []
  | s :: before, target =>
    if kept < before.length then do
      closePath kept before (← stateOf (s.closed target))
    else pure (⟨s.closed target, none⟩ :: before)

/-- How many of the bytes of a group the states of a path, the first one first, are open for. -/
def sharedLength : List ByteRange → List OpenState → Nat
  | r :: rest, s :: path => if s.last = some r then sharedLength rest path + 1 else 0
  | _, _ => 0

/-- Adds a group to a path that ends at a target. -/
def addGroup (target : Nat) (path : List OpenState) (group : List ByteRange) :
    Sharing (List OpenState) := do
  let shared := sharedLength group path.reverse
  let path ← closePath shared path target
  match group.drop shared, path with
  | first :: rest, s :: before =>
    return rest.reverse.map (fun r => ⟨[], some r⟩) ++ { s with last := some first } :: before
  | _, _ => return path

/-- Builds the groups of a set as they are read forwards. Groups that end alike share the ends. -/
def forwardsSet (groups : List (List ByteRange)) : Growth := fun b => do
  let target := b.states
  let b ← Growth.add 1 0 b
  let build : Sharing Nat := do
    let path ← groups.foldlM (addGroup target) [⟨[], none⟩]
    let path ← closePath 0 path target
    stateOf ((path.head?.map OpenState.steps).getD [])
  let (_, b, _) ← build (b, .ofPlaces 10000)
  return b

/-- Builds the groups of a set as they are read backwards. Groups that start alike share the
starts. -/
def backwardsSet (groups : List (List ByteRange)) : Growth := fun b => do
  let target := b.states + 1
  let b ← Growth.add 2 (groups.length * Built.linkSize) b
  let build : Sharing Unit :=
    groups.forM fun group => do
      let _ ← group.foldlM (fun state r => stateFor [state, r.low, r.high] 0) target
      return ()
  let (_, b, _) ← build (b, .ofPlaces 1000)
  return b

/-- Builds a set. -/
def growSet (backwards : Bool) (members : CharRanges) : Growth :=
  if members.isAscii then Growth.add 2 (members.length * Built.stepSize)
  else
    let groups := members.flatMap ByteRange.sequences
    if backwards then backwardsSet groups else forwardsSet groups

/-! ## Choices between texts -/

/-- Cuts words at the empty ones among them. A second empty word does not count where only empty
words stand in front of it. -/
def wordRuns (words : List (List UInt8)) : List (List (List UInt8)) :=
  if words.head?.any List.isEmpty then [] :: parts [] (words.dropWhile List.isEmpty)
  else parts [] words

/-- The words that go on with a byte, without it. -/
def wordsBehind (words : List (List UInt8)) (byte : UInt8) : List (List UInt8) :=
  words.filterMap fun
    | first :: rest => if first = byte then some rest else none
    | [] => none

/-- What the tree of words takes, as deep as given: for each run of words between empty ones a state
with a step for every byte they start with, a fork to these states and to the end for each empty
word, and the trees behind the bytes that are not the end of every word. -/
def treeOf : Nat → List (List UInt8) → Built
  | 0, _ => .start
  | depth + 1, words =>
    let runs := wordRuns words
    let firsts := runs.map fun run => (run.filterMap List.head?).eraseDups
    let states := firsts.filter (!·.isEmpty)
    let steps := (states.filter (1 < ·.length)).flatten.length
    let ways := states.length + (runs.length - 1)
    let own : Built := ⟨states.length + 1, steps * Built.stepSize + ways * Built.linkSize⟩
    let below := (runs.zip firsts).flatMap fun (run, bytes) => bytes.map (wordsBehind run)
    (below.filter (·.any (!·.isEmpty))).foldl (fun sum words => sum.add (treeOf depth words)) own

/-- Builds a choice between texts. -/
def growTexts (backwards : Bool) (texts : List (List Char)) : Growth :=
  let words := texts.map fun chars =>
    let bytes := chars.flatMap String.utf8EncodeChar
    if backwards then bytes.reverse else bytes
  let depth := (words.map List.length).foldl max 0
  let tree := treeOf depth words
  Growth.add (tree.states + 1) tree.held

/-! ## Shapes -/

/-- The text that a shape is. -/
def Shape.text? : Shape → Option (List Char)
  | .text chars => some chars
  | _ => none

mutual

/-- Builds a shape. -/
def Shape.grow (backwards : Bool) : Shape → Growth
  | .nothing => Growth.add 1 0
  | .text chars => Growth.add (chars.flatMap String.utf8EncodeChar).length 0
  | .set _ members => growSet backwards members
  | .look _ => Growth.add 1 0
  | .repeated count body =>
    let once := body.grow backwards
    match count.least, count.most with
    | 0, some 1 => ((Growth.fork 2).followedBy once).followedBy (Growth.add 1 0)
    | least, some most =>
      if least = most then once.times least
      else
        let first := if least = 0 then Growth.add 1 0 else once.times least
        (first.followedBy (Growth.add 1 0)).followedBy
          (((Growth.fork 2).followedBy once).times (most - least))
    | 0, none =>
      if body.takesSome then (Growth.fork 2).followedBy once
      else ((once.followedBy (Growth.fork 2)).followedBy (Growth.fork 2)).followedBy
        (Growth.add 1 0)
    | least, none => (once.times least).followedBy (Growth.fork 2)
  | .capture _ body =>
    if backwards then body.grow backwards
    else ((Growth.add 1 0).followedBy (body.grow backwards)).followedBy (Growth.add 1 0)
  | .sequence items => if backwards then growLastFirst items else growInOrder items
  | .choice branches =>
    match branches.mapM Shape.text? with
    | some texts => growTexts backwards texts
    | none => growBranches backwards branches

def growInOrder : List Shape → Growth
  | [] => some
  | x :: rest => (x.grow false).followedBy (growInOrder rest)

def growLastFirst : List Shape → Growth
  | [] => some
  | x :: rest => (growLastFirst rest).followedBy (x.grow true)

/-- Builds branches: the first two, then the fork to all and the state behind them, then the
rest. -/
def growBranches (backwards : Bool) : List Shape → Growth
  | x :: y :: rest =>
    (((x.grow backwards).followedBy (y.grow backwards)).followedBy
      (Growth.add 2 ((rest.length + 2) * Built.linkSize))).followedBy (growAll backwards rest)
  | branches => growAll backwards branches

def growAll (backwards : Bool) : List Shape → Growth
  | [] => some
  | x :: rest => (x.grow backwards).followedBy (growAll backwards rest)

end

/-- Builds what passes over the text in front of a match, unless a match starts with the text. -/
def growLead (anchored : Bool) : Growth :=
  if anchored then Growth.add 1 0
  else Growth.add 3 (2 * Built.linkSize + Built.stepSize)

namespace Shape

/-- Whether the automaton that reads forwards keeps the limit. The whole match is kept like what a
group matches. -/
def fitsForwards (x : Shape) : Bool :=
  ((((growLead (x.opensWith .textStart)).followedBy (Growth.add 1 0)).followedBy
    (x.grow false)).followedBy (Growth.add 2 0) .start).isSome

/-- Whether the automaton that reads backwards keeps the limit. -/
def fitsBackwards (x : Shape) : Bool :=
  (((growLead (x.closesWith .textEnd)).followedBy (x.grow true)).followedBy
    (Growth.add 1 0) .start).isSome

end Shape

end BlockReuse.Text.Pattern
