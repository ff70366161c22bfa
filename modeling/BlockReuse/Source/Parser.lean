import BlockReuse.Source.Error

/-!
# Parsers — reading values off a list of tokens

A parser takes the tokens that are left and either yields a value and the tokens behind it, or
fails. A failure keeps the tokens that were left when it arose, so that a reader can go on from
there, and the token at fault; a failure at the end of the source has none, and is reported at the
last token there is.

`Recedes p` says that what `p` leaves is an end of what it was given, and `Shrinks p` that it is a
shorter one. Loops over tokens end because each round shrinks what is left.
-/

set_option autoImplicit false

namespace BlockReuse.Source

/-- Why a parser gave up, the token at fault, and the tokens that were left. -/
structure Failure where
  error : ParseError
  token : Option Token
  rest : List Token
  deriving DecidableEq, Repr

/-- The error of a failure among `tokens`: at the token at fault, else at the last token, else at
the start of the source. -/
def Failure.located (failure : Failure) (tokens : List Token) : Located ParseError :=
  ⟨failure.error, ((failure.token <|> tokens.getLast?).map Token.position).getD .start⟩

/-- A reader of tokens. -/
abbrev Parser := StateT (List Token) (Except Failure)

namespace Parser

variable {α β : Type}

/-- Fails at a given token. -/
def failAt (token : Token) (error : ParseError) : Parser α :=
  fun rest => .error ⟨error, some token, rest⟩

/-- Fails at the next token. -/
def failHere (error : ParseError) : Parser α :=
  fun rest => .error ⟨error, rest.head?, rest⟩

/-- Whether the next token is of a class. -/
def nextIs (kind : TokenKind) : Parser Bool :=
  fun rest => .ok (rest.head?.any fun t => decide (t.kind = kind), rest)

/-- Reads a token of a class; `what` names it in the error. -/
def token (kind : TokenKind) (what : String) : Parser Token
  | [] => .error ⟨.expected what, none, []⟩
  | t :: rest =>
    if t.kind = kind then .ok (t, rest) else .error ⟨.expected what, some t, t :: rest⟩

/-- Reads a given word. -/
def keyword (word : String) : Parser Unit
  | [] => .error ⟨.expected word, none, []⟩
  | t :: rest =>
    if t.isWord word then .ok ((), rest) else .error ⟨.expected word, some t, t :: rest⟩

/-- Reads a given word if it comes next, and tells whether it did. -/
def optionalKeyword (word : String) : Parser Bool
  | [] => .ok (false, [])
  | t :: rest => if t.isWord word then .ok (true, rest) else .ok (false, t :: rest)

def comma : Parser Token := token .comma "`,`"

/-! ## What a parser leaves -/

/-- What the parser leaves is an end of what it was given. -/
def Recedes (p : Parser α) : Prop :=
  ∀ ⦃rest : List Token⦄ ⦃a : α⦄ ⦃after : List Token⦄, p rest = .ok (a, after) → after <:+ rest

/-- What the parser leaves is a shorter end of what it was given. -/
def Shrinks (p : Parser α) : Prop :=
  ∀ ⦃rest : List Token⦄ ⦃a : α⦄ ⦃after : List Token⦄, p rest = .ok (a, after) →
    after <:+ rest ∧ after.length < rest.length

theorem Shrinks.recedes {p : Parser α} (h : Shrinks p) : Recedes p := fun _ _ _ e => (h e).1

theorem recedes_pure (a : α) : Recedes (pure a : Parser α) := by
  intro rest b after h
  cases h
  exact List.suffix_refl _

theorem bind_eq_ok {p : Parser α} {q : α → Parser β} {rest after : List Token} {b : β} :
    (p >>= q) rest = .ok (b, after) ↔
      ∃ a middle, p rest = .ok (a, middle) ∧ q a middle = .ok (b, after) := by
  cases h : p rest with
  | error e => simp [bind, StateT.bind, Except.bind, h]
  | ok r =>
    obtain ⟨a, middle⟩ := r
    simp only [bind, StateT.bind, Except.bind, h, Except.ok.injEq, Prod.mk.injEq]
    exact ⟨fun e => ⟨a, middle, ⟨rfl, rfl⟩, e⟩, fun ⟨_, _, ⟨ha, hm⟩, e⟩ => by rwa [ha, hm]⟩

theorem Recedes.bind {p : Parser α} {q : α → Parser β} (hp : Recedes p)
    (hq : ∀ a, Recedes (q a)) : Recedes (p >>= q) := by
  intro rest b after h
  obtain ⟨a, middle, ha, hb⟩ := bind_eq_ok.mp h
  exact (hq a hb).trans (hp ha)

theorem Shrinks.bind {p : Parser α} {q : α → Parser β} (hp : Shrinks p)
    (hq : ∀ a, Recedes (q a)) : Shrinks (p >>= q) := by
  intro rest b after h
  obtain ⟨a, middle, ha, hb⟩ := bind_eq_ok.mp h
  exact ⟨(hq a hb).trans (hp ha).1, Nat.lt_of_le_of_lt (hq a hb).length_le (hp ha).2⟩

theorem Recedes.bind_shrinks {p : Parser α} {q : α → Parser β} (hp : Recedes p)
    (hq : ∀ a, Shrinks (q a)) : Shrinks (p >>= q) := by
  intro rest b after h
  obtain ⟨a, middle, ha, hb⟩ := bind_eq_ok.mp h
  exact ⟨(hq a hb).1.trans (hp ha), Nat.lt_of_lt_of_le (hq a hb).2 (hp ha).length_le⟩

theorem recedes_failAt (t : Token) (error : ParseError) : Recedes (failAt t error : Parser α) :=
  fun _ _ _ h => by cases h

theorem recedes_failHere (error : ParseError) : Recedes (failHere error : Parser α) :=
  fun _ _ _ h => by cases h

theorem recedes_nextIs (kind : TokenKind) : Recedes (nextIs kind) := by
  intro rest a after h
  cases h
  exact List.suffix_refl _

theorem shrinks_token (kind : TokenKind) (what : String) : Shrinks (token kind what) := by
  intro rest a after h
  unfold token at h
  split at h
  · cases h
  · split at h
    · cases h
      exact ⟨List.suffix_cons _ _, Nat.lt_succ_self _⟩
    · cases h

theorem shrinks_keyword (word : String) : Shrinks (keyword word) := by
  intro rest a after h
  unfold keyword at h
  split at h
  · cases h
  · split at h
    · cases h
      exact ⟨List.suffix_cons _ _, Nat.lt_succ_self _⟩
    · cases h

theorem recedes_optionalKeyword (word : String) : Recedes (optionalKeyword word) := by
  intro rest a after h
  unfold optionalKeyword at h
  split at h
  · cases h
    exact List.suffix_refl _
  · split at h
    · cases h
      exact List.suffix_cons _ _
    · cases h
      exact List.suffix_refl _

end Parser

end BlockReuse.Source
