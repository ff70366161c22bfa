import BlockReuse.Proofs.Displacement
import BlockReuse.Proofs.Positions
import BlockReuse.Proofs.Renderings

/-!
# Concatenation — sources one below the other

A source that can be read does not get in the way of one that starts on the line below it. No token
goes on behind a newline, and neither does a comment, so the tokens of the first source are those of
the front of the whole (`tokens_append`). What comes next is read as if it stood alone, further down
(`tokens_down`). And reading the functions of the first source takes up all its tokens
(`functions_append`), whatever comes next.

Errors of the second source are then found as they are without the first, and are reported as many
lines below as the first source takes up (`parse_below`).
-/

set_option autoImplicit false

namespace BlockReuse.Source

/-! ## Tokens in front of a newline -/

theorem skipBlanks_append_of_left {inComment : Bool} {position : Position} {cs : List Char}
    (left : (skipBlanks inComment position cs).rest ≠ []) (more : List Char) :
    skipBlanks inComment position (cs ++ more) =
      ⟨(skipBlanks inComment position cs).rest ++ more,
        (skipBlanks inComment position cs).position⟩ := by
  fun_induction skipBlanks inComment position cs with
  | case1 => exact absurd rfl left
  | case2 inComment position cs ih => simpa [skipBlanks] using ih left
  | case3 position c cs sameLine ih => simpa [skipBlanks, sameLine] using ih left
  | case4 inComment position c cs sameLine outside blank ih =>
    simpa [skipBlanks, sameLine, outside, blank] using ih left
  | case5 inComment position cs sameLine outside blank ih =>
    simpa [skipBlanks, sameLine, outside, blank] using ih left
  | case6 inComment position c cs sameLine outside solid noComment =>
    simp [skipBlanks, sameLine, outside, solid, noComment]

/-- A newline ends a comment, and what comes next starts a line. -/
theorem skipBlanks_append_newline {inComment : Bool} {position : Position} {cs : List Char}
    (skipped : (skipBlanks inComment position cs).rest = []) (more : List Char) :
    skipBlanks inComment position (cs ++ '\n' :: more) =
      skipBlanks false ⟨position.line + cs.count '\n' + 1, 0⟩ more := by
  fun_induction skipBlanks inComment position cs with
  | case1 => simp [skipBlanks, Position.nextLine]
  | case2 inComment position cs ih =>
    have next := ih skipped
    simpa [skipBlanks, Position.nextLine, Nat.add_comm, Nat.add_left_comm] using next
  | case3 position c cs sameLine ih => simpa [skipBlanks, sameLine] using ih skipped
  | case4 inComment position c cs sameLine outside blank ih =>
    simpa [skipBlanks, sameLine, outside, blank, Position.right] using ih skipped
  | case5 inComment position cs sameLine outside blank ih =>
    simpa [skipBlanks, sameLine, outside, blank] using ih skipped
  | case6 => cases skipped

/-- A run of characters with a property does not go on behind a text that starts without it. -/
theorem takeWhile_append_of_stop {p : Char → Bool} {more : List Char}
    (stops : ∀ c ∈ more.head?, p c = false) (cs : List Char) :
    (cs ++ more).takeWhile p = cs.takeWhile p ∧
      (cs ++ more).dropWhile p = cs.dropWhile p ++ more := by
  induction cs with
  | nil => exact takeWhile_run (List.forall_mem_nil _) stops
  | cons c cs ih =>
    by_cases inside : p c = true
    · simpa [inside] using ih
    · simp [inside]

theorem splitSign_cons_append (c : Char) (cs more : List Char) :
    splitSign (c :: cs ++ more) = ((splitSign (c :: cs)).1, (splitSign (c :: cs)).2 ++ more) := by
  by_cases signed : c = '-'
  · subst signed
    rfl
  · rw [List.cons_append, splitSign_of_ne signed, splitSign_of_ne signed]
    rfl

theorem splitHexMark?_append_of_ends {more : List Char} (ends : Ends more) (cs : List Char) :
    splitHexMark? (cs ++ more) = (splitHexMark? cs).map fun (mark, ds) => (mark, ds ++ more) := by
  cases marked : splitHexMark? cs with
  | some r =>
    unfold splitHexMark? at marked
    split at marked <;> cases marked <;> rfl
  | none =>
    refine splitHexMark?_eq_none fun mark ds same => ?_
    match cs with
    | [] =>
      have noName := ends '0' (by simp [show more = _ from same])
      cases noName
    | [c] =>
      obtain ⟨-, same⟩ := List.cons.inj same
      have noName := ends mark (by simp [show more = _ from same])
      constructor
      all_goals
        rintro rfl
        cases noName
    | c :: d :: cs =>
      obtain ⟨first, others⟩ := List.cons.inj same
      obtain ⟨second, -⟩ := List.cons.inj others
      subst first second
      constructor
      all_goals
        rintro rfl
        cases marked

/-- Text that starts without a character of a name does not change the token in front of it. -/
theorem plainLexeme_append {more : List Char} (ends : Ends more) {head : Char} {tail : List Char}
    {l : Lexeme} (read : plainLexeme head tail = .ok l) :
    plainLexeme head (tail ++ more) = .ok { l with rest := l.rest ++ more } := by
  have stops {p : Char → Bool} (isName : ∀ {c}, p c = true → isNameChar c = true) :
      ∀ c ∈ more.head?, p c = false := by
    intro c first
    by_contra inside
    have := isName (Bool.eq_true_of_not_eq_false inside)
    simp [ends c first] at this
  have names := takeWhile_append_of_stop ends (head :: tail)
  have digits := takeWhile_append_of_stop (stops isNameChar_of_isDigit) (splitSign (head :: tail)).2
  have sign := splitSign_cons_append head tail more
  have marked := splitHexMark?_append_of_ends ends (splitSign (head :: tail)).2
  rw [List.cons_append] at names sign
  unfold plainLexeme at read ⊢
  simp only [sign, marked] at read ⊢
  cases found : splitHexMark? (splitSign (head :: tail)).2 with
  | some r =>
    obtain ⟨mark, ds⟩ := r
    have hexDigits := takeWhile_append_of_stop (stops isNameChar_of_isHexDigit) ds
    simp only [found, Option.map_some, hexDigits.1, hexDigits.2] at read ⊢
    split at read <;> cases read
    next digited => rw [if_neg digited]
  | none =>
    simp only [found, Option.map_none, digits.1, digits.2, names.1, names.2] at read ⊢
    split at read
    · next digited =>
      cases read
      rw [if_pos digited]
    · next undigited =>
      rw [if_neg undigited]
      split at read <;> cases read
      next named => rw [if_pos named]

theorem lexeme_append {more : List Char} (ends : Ends more) {head : Char} {tail : List Char}
    {l : Lexeme} (read : lexeme head tail = .ok l) :
    lexeme head (tail ++ more) = .ok { l with rest := l.rest ++ more } := by
  unfold lexeme at read ⊢
  cases marked : punctuation? head with
  | some kind =>
    simp only [marked] at read ⊢
    cases read
    rfl
  | none =>
    cases sigiled : nameKind? head with
    | some kind =>
      obtain ⟨taken, dropped⟩ := takeWhile_append_of_stop ends tail
      simp only [marked, sigiled, taken, dropped] at read ⊢
      split at read <;> cases read
      next named => rw [if_neg named]
    | none =>
      simp only [marked, sigiled] at read ⊢
      exact plainLexeme_append ends read

/-! ## Sources one below the other -/

theorem Scanner.Exact.line {source : List Char} {s : Scanner} (stands : s.Exact source) :
    s.position.line + s.rest.count '\n' = source.count '\n' := by
  obtain ⟨before, rfl, here⟩ := stands
  rw [here, List.count_append]
  rfl

/-- The scanner with more text below what is left. -/
def Scanner.above (more : List Char) (s : Scanner) : Scanner := ⟨s.rest ++ '\n' :: more, s.position⟩

/-- A step that yields a token yields it with more text below. -/
theorem Scanner.next_above {s after : Scanner} {t : Token} (step : s.next = .token t after)
    (more : List Char) : (s.above more).next = .token t (after.above more) := by
  have ends : Ends ('\n' :: more) := by
    rintro c ⟨⟩
    decide
  unfold Scanner.next at step
  simp only at step
  split at step
  · cases step
  next head tail rest =>
  split at step <;> cases step
  next l read =>
  have left : (skipBlanks false s.position s.rest).rest ≠ [] := by simp [rest]
  have skipped := skipBlanks_append_of_left left ('\n' :: more)
  rw [rest] at skipped
  simp [Scanner.next, Scanner.above, skipped, lexeme_append ends read]

/-- A step that finishes skips all that is left. -/
theorem Scanner.rest_skipBlanks_of_finished {s after : Scanner} (step : s.next = .finished after) :
    (skipBlanks false s.position s.rest).rest = [] := by
  unfold Scanner.next at step
  simp only at step
  split at step
  · next nothing => exact nothing
  · split at step <;> cases step

/-- Behind its last token a source only has blanks, which the line below does not continue. -/
theorem Scanner.next_above_of_finished {s after : Scanner} (step : s.next = .finished after)
    (more : List Char) :
    (s.above more).next = Scanner.next ⟨more, ⟨s.position.line + s.rest.count '\n' + 1, 0⟩⟩ := by
  have skipped := Scanner.rest_skipBlanks_of_finished step
  simp only [Scanner.next, Scanner.above, skipBlanks_append_newline skipped]

/-- The tokens of two sources one below the other are those of the first and those of the second,
with the lines counted on. -/
theorem tokens_above {source : List Char} {s : Scanner} (stands : s.Exact source) {ts : List Token}
    (read : s.tokens = .ok ts) (more : List Char) :
    (s.above more).tokens =
      (Scanner.tokens ⟨more, ⟨source.count '\n' + 1, 0⟩⟩).map (ts ++ ·) := by
  induction s using Scanner.tokens.induct generalizing ts with
  | case1 s first after step ih =>
    obtain ⟨us, readMore, rfl⟩ := Scanner.tokens_of_token step read
    rw [Scanner.tokens_eq, Scanner.next_above step]
    simp only [ih (stands.next_token step).2 readMore]
    cases Scanner.tokens ⟨more, ⟨source.count '\n' + 1, 0⟩⟩ <;> rfl
  | case2 s after step =>
    rw [Scanner.tokens_eq, step] at read
    cases read
    rw [Scanner.tokens_eq, Scanner.next_above_of_finished step, stands.line, ← Scanner.tokens_eq]
    cases Scanner.tokens ⟨more, ⟨source.count '\n' + 1, 0⟩⟩ <;> rfl
  | case3 s e after step =>
    rw [Scanner.tokens_eq, step] at read
    cases read

/-! ## Sources further down -/

/-- The position some lines below. -/
def Position.down (lines : Nat) (p : Position) : Position := ⟨p.line + lines, p.column⟩

def Scanner.down (lines : Nat) (s : Scanner) : Scanner := ⟨s.rest, s.position.down lines⟩

theorem skipBlanks_down (lines : Nat) (inComment : Bool) (position : Position) (cs : List Char) :
    skipBlanks inComment (position.down lines) cs =
      (skipBlanks inComment position cs).down lines := by
  have next (position : Position) :
      (position.down lines).nextLine = position.nextLine.down lines := by
    simp only [Position.nextLine, Position.down, Nat.add_right_comm]
  have right (position : Position) :
      (position.down lines).right 1 = (position.right 1).down lines := rfl
  fun_induction skipBlanks inComment position cs <;> simp_all [skipBlanks, Scanner.down]

/-- A scanner further down makes the same steps, and reports them further down. -/
theorem Scanner.next_down (lines : Nat) (s : Scanner) :
    (s.down lines).next =
      match s.next with
      | .token t after => .token (t.displace (Position.down lines)) (after.down lines)
      | .finished after => .finished (after.down lines)
      | .failed e after => .failed (e.displace (Position.down lines)) (after.down lines) := by
  unfold Scanner.next
  simp only [Scanner.down, skipBlanks_down]
  obtain ⟨rest, position⟩ := skipBlanks false s.position s.rest
  cases rest with
  | nil => rfl
  | cons head tail =>
    simp only
    cases lexeme head tail <;> rfl

theorem Scanner.tokens_down (lines : Nat) (s : Scanner) :
    (s.down lines).tokens =
      match s.tokens with
      | .ok ts => .ok (ts.map (Token.displace (Position.down lines)))
      | .error e => .error (e.displace (Position.down lines)) := by
  induction s using Scanner.tokens.induct with
  | case1 s first after step ih =>
    rw [Scanner.tokens_eq, Scanner.next_down, Scanner.tokens_eq s, step]
    simp only [ih]
    cases after.tokens <;> rfl
  | case2 s after step => rw [Scanner.tokens_eq, Scanner.next_down, Scanner.tokens_eq s, step]; rfl
  | case3 s e after step => rw [Scanner.tokens_eq, Scanner.next_down, Scanner.tokens_eq s, step]

/-! ## Functions one after the other -/

/-- Functions that can be read are read in the same way whatever comes next. -/
theorem functions_append {ts : List Token} {fs : List Func} (read : functions ts = .ok fs)
    (us : List Token) : functions (ts ++ us) = (functions us).map (fs ++ ·) := by
  fun_induction functions ts generalizing fs with
  | case1 =>
    cases read
    rw [List.nil_append]
    cases functions us <;> rfl
  | case2 => cases read
  | case3 => cases read
  | case4 t tail f after readFirst more readMore ih =>
    cases read
    obtain ⟨vs, renders, whole⟩ := sound_function readFirst
    have first := complete_function renders (after ++ us)
    rw [← List.append_assoc, ← whole] at first
    rw [List.cons_append] at first ⊢
    rw [functions_cons, first]
    simp only [ih readMore]
    cases functions us <;> rfl

/-- An error behind other functions is reported where it is without them. -/
theorem located_append {us : List Token} (nonempty : us ≠ []) (ts : List Token)
    (g : Position → Position) (failure : Failure) :
    (failure.displace g).located (ts ++ us.map (Token.displace g)) =
      (failure.located us).displace g := by
  have whole := List.dropLast_append_getLast nonempty
  rw [← whole]
  cases token : failure.token <;> simp [Failure.located, Failure.displace, Located.displace, token]

/-- **A source below another that can be read is read as if it stood alone.** Its functions come
after those of the other, and its errors are reported as many lines below as the other takes up. -/
theorem parse_below {above : String} {fs : List Func} (read : parse above = .ok fs)
    (below : String) : parse (above ++ "\n" ++ below) =
      match parse below with
      | .ok gs => .ok (fs ++ gs)
      | .error e => .error ⟨e.value,
          ⟨e.position.line + above.toList.count '\n' + 1, e.position.column⟩⟩ := by
  obtain ⟨ts, scanned, readFirst⟩ := parse_eq_ok.mp read
  have whole : (above ++ "\n" ++ below).toList = above.toList ++ '\n' :: below.toList := by simp
  have tokens : tokenize (above.toList ++ '\n' :: below.toList) =
      match tokenize below.toList with
      | .ok us => .ok (ts ++ us.map (Token.displace (Position.down (above.toList.count '\n' + 1))))
      | .error e => .error (e.displace (Position.down (above.toList.count '\n' + 1))) := by
    have lines : (⟨above.toList.count '\n' + 1, 0⟩ : Position) =
        Position.start.down (above.toList.count '\n' + 1) := by
      simp [Position.down, Position.start]
    have front := tokens_above (exact_ofChars above.toList) scanned below.toList
    rw [lines] at front
    have back := Scanner.tokens_down (above.toList.count '\n' + 1) (.ofChars below.toList)
    refine front.trans ?_
    refine (congrArg (Except.map (ts ++ ·)) back).trans ?_
    unfold tokenize
    cases (Scanner.ofChars below.toList).tokens <;> rfl
  unfold parse ofChars
  rw [whole, tokens]
  cases scannedBelow : tokenize below.toList with
  | error e => rfl
  | ok us =>
    simp only [ofTokens, functions_append readFirst, functions_displace]
    cases readBelow : functions us with
    | ok gs => rfl
    | error failure =>
      have nonempty : us ≠ [] := by
        rintro rfl
        rw [functions] at readBelow
        cases readBelow
      exact congrArg Except.error (located_append nonempty ts _ failure)

/-- A function that only returns. -/
def returnOnly (name : String) : Func where
  name := name
  arguments := []
  globals := []
  definitions := [⟨.ret none, none⟩]
  blocks := [⟨"e", [0]⟩]
  placed := by decide

theorem parse_below_returnOnly :
    parse "fn @f() \x7b\ne: ret ; done\n\x7d ; f" = .ok [returnOnly "f"] ∧
      parse ("fn @f() \x7b\ne: ret ; done\n\x7d ; f" ++ "\n" ++ "fn @g() \x7b\ne: ret\n\x7d") =
        .ok [returnOnly "f", returnOnly "g"] ∧
      parse ("fn @f() \x7b\ne: ret ; done\n\x7d ; f" ++ "\n" ++ "fn @g() \x7b\ne: ret %x\n\x7d") =
        .error ⟨.undefinedValue "x", ⟨4, 7⟩⟩ := by
  have first : parse "fn @f() \x7b\ne: ret ; done\n\x7d ; f" = .ok [returnOnly "f"] := by
    decide +kernel
  refine ⟨first, ?_, ?_⟩
  · have second : parse "fn @g() \x7b\ne: ret\n\x7d" = .ok [returnOnly "g"] := by decide +kernel
    rw [parse_below first, second]
    rfl
  · have second : parse "fn @g() \x7b\ne: ret %x\n\x7d" = .error ⟨.undefinedValue "x", ⟨1, 7⟩⟩ := by
      decide +kernel
    rw [parse_below first, second]
    decide +kernel

end BlockReuse.Source
