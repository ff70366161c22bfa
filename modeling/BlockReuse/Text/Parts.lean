/-!
# Parts — a list cut at a separator

A list with n separators has n + 1 parts, some of which may be empty; put together again with the
separator between them they are the list (`intercalate_parts`).
-/

set_option autoImplicit false

namespace BlockReuse.Text

variable {α : Type} [DecidableEq α]

/-- The parts of a list between its separators. -/
def parts (separator : α) : List α → List (List α)
  | [] => [[]]
  | c :: cs =>
    if c = separator then [] :: parts separator cs
    else
      match parts separator cs with
      | [] => [[c]]
      | first :: rest => (c :: first) :: rest

theorem parts_ne_nil (separator : α) (cs : List α) : parts separator cs ≠ [] := by
  fun_cases parts separator cs <;> simp

/-- Nothing is lost by cutting. -/
theorem intercalate_parts (separator : α) (cs : List α) :
    [separator].intercalate (parts separator cs) = cs := by
  induction cs with
  | nil => rfl
  | cons c cs ih =>
    rw [parts]
    obtain ⟨first, rest, h⟩ := List.exists_cons_of_ne_nil (parts_ne_nil separator cs)
    rw [h] at ih ⊢
    split
    · next hc => simp [List.intercalate, hc] at ih ⊢; exact ih
    · cases rest <;> simp_all [List.intercalate]

end BlockReuse.Text
