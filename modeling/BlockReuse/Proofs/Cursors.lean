import BlockReuse.Proofs.Faults
import BlockReuse.Source.Cursor

/-!
# Cursors — where a parser stops

A parser that is run at a cursor moves it forward, whether it succeeds or fails: what it leaves is
an end of what it was given (`Forward`). For an answer that is `Recedes`; here a failure counts as
well, which keeps the tokens that were left when it arose. Most parsers fail at the token they stand
at (`Recedes.forward`), and the others are made of them (`Forward.bind`).

Behind a parser that goes forward the cursor stands at the tokens that were left (`rest_run`), so
that two parsers in a row are two runs, the second from where the first one stopped (`run_bind`).
-/

set_option autoImplicit false

namespace BlockReuse.Source

open BlockReuse.Source.Parser

variable {α β : Type}

/-! ## Parsers in a row -/

theorem bind_of_ok {p : Parser α} {q : α → Parser β} {rest middle : List Token} {a : α}
    (read : p rest = .ok (a, middle)) : (p >>= q) rest = q a middle := by
  simp only [bind, StateT.bind, Except.bind, read]

theorem congr_bind_right {p : Parser α} {q q' : α → Parser β} {rest : List Token}
    (same : ∀ a middle, p rest = .ok (a, middle) → q a middle = q' a middle) :
    (p >>= q) rest = (p >>= q') rest := by
  cases outcome : p rest with
  | error failure =>
    rw [bind_eq_error.mpr (.inl outcome), bind_eq_error.mpr (.inl outcome)]
  | ok r =>
    obtain ⟨a, middle⟩ := r
    rw [bind_of_ok outcome, bind_of_ok outcome]
    exact same a middle outcome

/-! ## Parsers that go forward -/

/-- The tokens that are left unread where a parser stops, with an answer or with a failure. -/
def unread : Except Failure (α × List Token) → List Token
  | .ok (_, rest) => rest
  | .error failure => failure.rest

/-- Wherever the parser stops, it leaves an end of what it was given. -/
def Forward (p : Parser α) : Prop := ∀ rest, unread (p rest) <:+ rest

theorem Parser.Recedes.forward {p : Parser α} (recedes : Recedes p)
    (stays : ∀ ⦃rest failure⦄, p rest = .error failure → failure.rest = rest) : Forward p := by
  intro rest
  cases outcome : p rest with
  | ok r => exact recedes outcome
  | error failure =>
    show failure.rest <:+ rest
    rw [stays outcome]

theorem Forward.recedes {p : Parser α} (forward : Forward p) : Recedes p := by
  intro rest a after read
  have suffix := forward rest
  rwa [read] at suffix

theorem unread_bind {p : Parser α} {q : α → Parser β} {rest : List Token}
    (first : unread (p rest) <:+ rest)
    (next : ∀ a middle, p rest = .ok (a, middle) → unread (q a middle) <:+ middle) :
    unread ((p >>= q) rest) <:+ rest := by
  cases outcome : p rest with
  | error failure =>
    rw [outcome] at first
    rw [bind_eq_error.mpr (.inl outcome)]
    exact first
  | ok r =>
    obtain ⟨a, middle⟩ := r
    rw [outcome] at first
    rw [bind_of_ok outcome]
    exact (next a middle outcome).trans first

theorem Forward.bind {p : Parser α} {q : α → Parser β} (first : Forward p)
    (next : ∀ a, Forward (q a)) : Forward (p >>= q) :=
  fun rest => unread_bind (first rest) fun a middle _ => next a middle

namespace Cursor

variable {c : Cursor}

@[simp]
theorem tokens_leaving (c : Cursor) (ts : List Token) : (c.leaving ts).tokens = c.tokens := rfl

theorem rest_leaving {ts : List Token} (suffix : ts <:+ c.rest) : (c.leaving ts).rest = ts := by
  show c.tokens.drop (c.passed + (c.rest.length - ts.length)) = ts
  rw [← List.drop_drop]
  exact (List.suffix_iff_eq_drop.mp suffix).symm

theorem leaving_leaving {ts us : List Token} (suffix : ts <:+ c.rest) (further : us <:+ ts) :
    (c.leaving ts).leaving us = c.leaving us := by
  have first := suffix.length_le
  have second := further.length_le
  have places : c.passed + (c.rest.length - ts.length) + (ts.length - us.length) =
      c.passed + (c.rest.length - us.length) := by omega
  rw [leaving, rest_leaving suffix]
  simp only [leaving, places]

theorem run_eq (c : Cursor) (p : Parser α) :
    c.run p = ((p c.rest).map Prod.fst |>.mapError fun failure => failure.located c.tokens,
      c.leaving (unread (p c.rest))) := by
  unfold run
  split
  · next a ts outcome => rw [outcome]; rfl
  · next failure outcome => rw [outcome]; rfl

theorem run_of_ok {p : Parser α} {a : α} {ts : List Token} (read : p c.rest = .ok (a, ts)) :
    c.run p = (.ok a, c.leaving ts) := by
  simp only [run, read]

theorem run_of_error {p : Parser α} {failure : Failure} (failed : p c.rest = .error failure) :
    c.run p = (.error (failure.located c.tokens), c.leaving failure.rest) := by
  simp only [run, failed]

/-- What is read behind a parser that succeeds is read from where it stopped. -/
theorem run_bind {p : Parser α} {q : α → Parser β} {a : α} {middle : List Token}
    (read : p c.rest = .ok (a, middle)) (suffix : middle <:+ c.rest)
    (further : unread (q a middle) <:+ middle) :
    c.run (p >>= q) = (c.leaving middle).run (q a) := by
  have there : (c.leaving middle).rest = middle := rest_leaving suffix
  cases outcome : q a middle with
  | ok r =>
    obtain ⟨b, ts⟩ := r
    have further : ts <:+ middle := by rwa [outcome] at further
    rw [run_of_ok ((bind_of_ok read).trans outcome), run_of_ok (by rw [there, outcome]),
      leaving_leaving suffix further]
  | error failure =>
    have further : failure.rest <:+ middle := by rwa [outcome] at further
    rw [run_of_error ((bind_of_ok read).trans outcome), run_of_error (by rw [there, outcome]),
      leaving_leaving suffix further, tokens_leaving]

end Cursor

end BlockReuse.Source
