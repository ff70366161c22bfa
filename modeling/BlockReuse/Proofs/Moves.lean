import BlockReuse.Proofs.Expressions
import BlockReuse.Reuse.Scan

/-!
# Moves — the redirections a pass reports, acted out again

A pass reports every redirection it makes, in order. Acting them out on the function it started
from gives the function it ends with, so what a pass does to a function is the list of its moves,
and a property of the pass is one of each move in the function it is made in (`EachMove`).

A move changes operands and nothing else, and it changes all of them by one substitution
(`moveUses`). So a whole pass is a substitution too.
-/

set_option autoImplicit false

namespace BlockReuse

/-! ## One move -/

/-- Moving uses a second time changes nothing: no use of the source is left. -/
theorem moveUses_moveUses {source target : Nat} (distinct : target ≠ source) (v : Value) :
    moveUses source (.inst target) (moveUses source (.inst target) v) =
      moveUses source (.inst target) v := by
  by_cases same : v = .inst source
  · rw [same, moveUses_source]
    exact moveUses_of_ne (fun h => distinct (Value.inst.inj h))
  · rw [moveUses_of_ne same, moveUses_of_ne same]

namespace Func

/-- An instruction that does not mention the source stays as it is. -/
theorem instruction?_redirectUses_of_not_mem {f : Func} {source index : Nat} (target : Nat)
    (unused : index ∉ f.usersOf source) :
    (f.redirectUses source (.inst target)).instruction? index = f.instruction? index := by
  rw [redirectUses, instruction?_mapOperands]
  cases found : f.instruction? index with
  | none => rfl
  | some x =>
    have absent : Value.inst source ∉ x.operands := by
      intro mem
      rw [instruction?_eq_getElem?] at found
      exact unused (mem_usersOf.mpr ⟨x, found, mem⟩)
    have unchanged : x.map (moveUses source (.inst target)) = x.map (fun v => v) := by
      refine Instruction.map_congr fun v mem => moveUses_of_ne ?_
      rintro rfl
      exact absent mem
    rw [Option.map_some, unchanged, Instruction.map_id]

/-- The same for its key. -/
theorem key?_redirectUses_of_not_mem {f : Func} {source index : Nat} (target : Nat)
    (unused : index ∉ f.usersOf source) :
    (f.redirectUses source (.inst target)).key? index = f.key? index := by
  rw [key?, instruction?_redirectUses_of_not_mem target unused, key?]

/-- Without a user a move changes nothing. -/
theorem redirectUses_eq_self {f : Func} {source target : Nat} (unused : f.usersOf source = []) :
    f.redirectUses source (.inst target) = f := by
  rw [redirectUses]
  refine (mapOperands_congr fun v mem => moveUses_of_ne ?_).trans f.mapOperands_id
  rintro rfl
  obtain ⟨x, xMem, vMem⟩ := List.mem_flatMap.mp mem
  obtain ⟨index, found⟩ := List.mem_iff_getElem?.mp xMem
  have user : index ∈ f.usersOf source := mem_usersOf.mpr ⟨x, found, vMem⟩
  rw [unused] at user
  cases user

end Func

/-! ## The moves of a report -/

/-- A function after what was reported is done to it. -/
def Event.apply (f : Func) : Event → Func
  | .redirected source target _ => f.redirectUses source (.inst target)
  | .memoryWritten _ _ _ _ => f
  | .newExpression _ => f

/-- A function after a list of reports is acted out on it. -/
def Func.after (f : Func) (events : List Event) : Func := events.foldl Event.apply f

/-- Every redirection among the events satisfies `P` in the function it is made in. -/
def EachMove (P : Func → Nat → Nat → Prop) (f : Func) : List Event → Prop
  | [] => True
  | .redirected source target _ :: rest =>
    P f source target ∧ EachMove P (f.redirectUses source (.inst target)) rest
  | .memoryWritten _ _ _ _ :: rest => EachMove P f rest
  | .newExpression _ :: rest => EachMove P f rest

@[simp]
theorem Func.after_nil (f : Func) : f.after [] = f := rfl

@[simp]
theorem Func.after_append (f : Func) (first second : List Event) :
    f.after (first ++ second) = (f.after first).after second := by
  simp [Func.after]

/-- Acting out a report changes all operands by one substitution. -/
theorem Func.exists_after_eq_mapOperands (f : Func) (events : List Event) :
    ∃ g, f.after events = f.mapOperands g := by
  induction events generalizing f with
  | nil => exact ⟨fun v => v, f.mapOperands_id.symm⟩
  | cons event events ih =>
    obtain ⟨g, rest⟩ := ih (event.apply f)
    cases event with
    | redirected source target users =>
      exact ⟨fun v => g (moveUses source (.inst target) v),
        rest.trans (f.mapOperands_mapOperands _ g)⟩
    | memoryWritten writer block removed queries => exact ⟨g, rest⟩
    | newExpression index => exact ⟨g, rest⟩

@[simp]
theorem Func.blocks_after (f : Func) (events : List Event) :
    (f.after events).blocks = f.blocks := by
  obtain ⟨g, after⟩ := f.exists_after_eq_mapOperands events
  rw [after, blocks_mapOperands]

/-- An instruction keeps everything but its operands. -/
theorem Func.exists_instruction?_after {f : Func} {index : Nat} {x : Instruction Value}
    (found : f.instruction? index = some x) (events : List Event) :
    ∃ g, (f.after events).instruction? index = some (x.map g) := by
  obtain ⟨g, after⟩ := f.exists_after_eq_mapOperands events
  exact ⟨g, by rw [after, instruction?_mapOperands, found, Option.map_some]⟩

theorem eachMove_append {P : Func → Nat → Nat → Prop} {f : Func} {first second : List Event} :
    EachMove P f (first ++ second) ↔ EachMove P f first ∧ EachMove P (f.after first) second := by
  induction first generalizing f with
  | nil => simp [EachMove]
  | cons event first ih =>
    cases event with
    | redirected source target users => simp only [List.cons_append, EachMove, ih, and_assoc]; rfl
    | memoryWritten writer block removed queries => exact ih
    | newExpression index => exact ih

theorem EachMove.mono {P Q : Func → Nat → Nat → Prop}
    (implies : ∀ g source target, P g source target → Q g source target) {f : Func}
    {events : List Event} (moves : EachMove P f events) : EachMove Q f events := by
  induction events generalizing f with
  | nil => trivial
  | cons event events ih =>
    cases event with
    | redirected source target users => exact ⟨implies _ _ _ moves.1, ih moves.2⟩
    | memoryWritten writer block removed queries => exact ih moves
    | newExpression index => exact ih moves

end BlockReuse
