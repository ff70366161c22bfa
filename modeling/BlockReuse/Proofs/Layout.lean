import BlockReuse.Proofs.Concatenation

/-!
# Layout — what stands between the tokens of a source

Between two tokens there are blanks and comments, and a comment runs to the end of its line; only
the last comment of a source may run to its end instead (`IsLayout`). A source that can be read is
its tokens as they are written with layout around them, and nothing else, and each token says where
it stands (`eq_laidOut_of_tokenize`): a step skips layout and takes one token, so the whole run does
so token by token.

Nor does it matter which layout it is. A token that was read once is read again when it stands alone
(`Token.StandsAlone`), whatever class it is of; and layout behind it starts with no character of a
name, so it cannot be taken for a part of the token. Tokens that are kept apart by any layout are
therefore the same tokens, up to where they stand (`tokenize_laidOut`).
-/

set_option autoImplicit false

namespace BlockReuse.Source

open Text (isBlank isDigit isHexDigit)

/-! ## Blanks and comments -/

/-- Blanks and comments. A comment is closed by the newline behind it; where the layout is the last
of a source, its last comment may be open. -/
inductive IsLayout : (last : Bool) → List Char → Prop
  | nil {last : Bool} : IsLayout last []
  | blank {last : Bool} {c : Char} {cs : List Char} (blank : isBlank c = true)
      (more : IsLayout last cs) : IsLayout last (c :: cs)
  | comment {last : Bool} {text cs : List Char} (onLine : '\n' ∉ text) (more : IsLayout last cs) :
      IsLayout last (';' :: (text ++ '\n' :: cs))
  | openComment {text : List Char} (onLine : '\n' ∉ text) : IsLayout true (';' :: text)

/-- A comment may have any further character that does not end its line. -/
theorem IsLayout.cons_comment {last : Bool} {c : Char} {cs : List Char} (sameLine : c ≠ '\n')
    (layout : IsLayout last (';' :: cs)) : IsLayout last (';' :: c :: cs) := by
  have extended {text : List Char} (onLine : '\n' ∉ text) : '\n' ∉ c :: text :=
    List.not_mem_cons_of_ne_of_not_mem sameLine.symm onLine
  cases layout with
  | blank blank _ => exact absurd blank (by decide)
  | comment onLine more => exact .comment (extended onLine) more
  | openComment onLine => exact .openComment (extended onLine)

/-- Layout does not go on with a character of a name. -/
theorem IsLayout.ends {last : Bool} {gap : List Char} (layout : IsLayout last gap) : Ends gap := by
  cases layout with
  | nil => simp [Ends]
  | blank blank more =>
    rintro c ⟨⟩
    by_contra isName
    have solid := (plain_of_isNameChar (.inl (Bool.eq_true_of_not_eq_false isName))).1.1
    simp [blank] at solid
  | comment onLine more =>
    rintro c ⟨⟩
    decide
  | openComment onLine =>
    rintro c ⟨⟩
    decide

/-- What opens a comment that a scanner is in. -/
def commentMark (inComment : Bool) : List Char := if inComment then [';'] else []

/-- What is skipped is layout, counted from the mark of the comment the scanner is in. -/
theorem exists_layout (inComment : Bool) (position : Position) (cs : List Char) :
    ∃ skipped, cs = skipped ++ (skipBlanks inComment position cs).rest ∧
      IsLayout (decide ((skipBlanks inComment position cs).rest = []))
        (commentMark inComment ++ skipped) := by
  -- In a comment the mark is still to be counted in: a character of the comment goes behind it, and
  -- the newline that closes the comment makes the mark and itself one piece of layout.
  fun_induction skipBlanks inComment position cs with
  | case1 inComment position =>
    refine ⟨[], rfl, ?_⟩
    cases inComment with
    | false => exact .nil
    | true => exact .openComment List.not_mem_nil
  | case2 inComment position cs ih =>
    obtain ⟨skipped, whole, layout⟩ := ih
    refine ⟨'\n' :: skipped, by rw [List.cons_append, ← whole], ?_⟩
    cases inComment with
    | false => exact .blank Text.isBlank_newline layout
    | true => exact @IsLayout.comment _ [] _ List.not_mem_nil layout
  | case3 position c cs sameLine ih =>
    obtain ⟨skipped, whole, layout⟩ := ih
    exact ⟨c :: skipped, by rw [List.cons_append, ← whole], layout.cons_comment sameLine⟩
  | case4 inComment position c cs sameLine outside blank ih =>
    obtain ⟨skipped, whole, layout⟩ := ih
    obtain rfl : inComment = false := by simpa using outside
    exact ⟨c :: skipped, by rw [List.cons_append, ← whole], .blank blank layout⟩
  | case5 inComment position cs outside sameLine solid ih =>
    obtain ⟨skipped, whole, layout⟩ := ih
    obtain rfl : inComment = false := by simpa using outside
    exact ⟨';' :: skipped, by rw [List.cons_append, ← whole], layout⟩
  | case6 inComment position c cs sameLine outside solid noComment =>
    obtain rfl : inComment = false := by simpa using outside
    exact ⟨[], rfl, .nil⟩

/-- A comment is skipped up to the newline that closes it. -/
theorem skipBlanks_comment {text : List Char} (onLine : '\n' ∉ text) (position : Position)
    (rest : List Char) :
    skipBlanks true position (text ++ '\n' :: rest) = skipBlanks false position.nextLine rest := by
  induction text with
  | nil => simp [skipBlanks]
  | cons c text ih =>
    obtain ⟨sameLine, onLine⟩ := List.ne_and_not_mem_of_not_mem_cons onLine
    simpa [skipBlanks, sameLine.symm] using ih onLine

/-- Layout between tokens is skipped, whatever comes next. -/
theorem IsLayout.skipBlanks {last : Bool} {gap : List Char} (layout : IsLayout last gap)
    (between : last = false) (position : Position) (rest : List Char) :
    ∃ position', skipBlanks false position (gap ++ rest) = skipBlanks false position' rest := by
  induction layout generalizing position with
  | nil => exact ⟨position, rfl⟩
  | @blank _ c cs blank more ih =>
    by_cases newline : c = '\n'
    · obtain ⟨position', skipped⟩ := ih between position.nextLine
      exact ⟨position', by simpa [Source.skipBlanks, newline] using skipped⟩
    · obtain ⟨position', skipped⟩ := ih between (position.right 1)
      exact ⟨position', by simpa [Source.skipBlanks, newline, blank] using skipped⟩
  | @comment _ text cs onLine more ih =>
    obtain ⟨position', skipped⟩ := ih between position.nextLine
    have mark : isBlank ';' = false := by decide
    exact ⟨position', by simp [Source.skipBlanks, mark, skipBlanks_comment onLine, skipped]⟩
  | openComment => cases between

/-- Layout at the end of a source is skipped to the end. -/
theorem IsLayout.rest_skipBlanks {last : Bool} {gap : List Char} (layout : IsLayout last gap)
    (position : Position) : (Source.skipBlanks false position gap).rest = [] := by
  induction layout generalizing position with
  | nil => rfl
  | @blank _ c cs blank more ih =>
    by_cases newline : c = '\n' <;> simp [Source.skipBlanks, newline, blank, ih]
  | @comment _ text cs onLine more ih =>
    have mark : isBlank ';' = false := by decide
    simp [Source.skipBlanks, mark, skipBlanks_comment onLine, ih]
  | @openComment text onLine =>
    have mark : isBlank ';' = false := by decide
    have skipped (position : Position) : (Source.skipBlanks true position text).rest = [] := by
      induction text with
      | nil => rfl
      | cons c text ih =>
        obtain ⟨sameLine, onLine⟩ := List.ne_and_not_mem_of_not_mem_cons onLine
        simpa [Source.skipBlanks, sameLine.symm] using ih onLine
    simp [Source.skipBlanks, mark, skipped]

/-! ## Sources that can be read -/

/-- Tokens as they are written, each behind its gap. -/
def laidOut (gaps : List (List Char)) (ts : List Token) : List Char :=
  (List.zipWith (fun gap t => gap ++ t.written) gaps ts).flatten

@[simp]
theorem laidOut_nil : laidOut [] [] = [] := rfl

@[simp]
theorem laidOut_cons (gap : List Char) (gaps : List (List Char)) (t : Token) (ts : List Token) :
    laidOut (gap :: gaps) (t :: ts) = gap ++ t.written ++ laidOut gaps ts := by
  simp [laidOut]

/-- What a step skips is layout. -/
theorem Scanner.exists_gap {s after : Scanner} {t : Token} {before : List Char}
    (here : s.position = .behind before) (step : s.next = .token t after) :
    ∃ gap, IsLayout false gap ∧ s.rest = gap ++ (t.written ++ after.rest) ∧
      t.position = .behind (before ++ gap) ∧
      after.position = .behind (before ++ gap ++ t.written) := by
  obtain ⟨gap, whole, standing, behind⟩ := Scanner.exists_skipped_of_token here step
  obtain ⟨head, tail, -, skipped, -, -, -, -, written⟩ := Scanner.of_next_eq_token step
  obtain ⟨gap', whole', layout⟩ := exists_layout false s.position s.rest
  rw [skipped] at whole' layout
  rw [← written] at whole
  obtain rfl : gap' = gap := List.append_cancel_right (whole'.symm.trans whole)
  exact ⟨gap', by simpa [commentMark] using layout, whole.trans (by rw [written]), standing, behind⟩

/-- A run takes a source apart into gaps and tokens. -/
theorem exists_gaps {s : Scanner} {before : List Char} (here : s.position = .behind before)
    {ts : List Token} (read : s.tokens = .ok ts) :
    ∃ gaps last, gaps.length = ts.length ∧ (∀ gap ∈ gaps, IsLayout false gap) ∧ IsLayout true last ∧
      s.rest = laidOut gaps ts ++ last ∧
      ∀ (i : Nat) (gap : List Char) (t : Token), gaps[i]? = some gap → ts[i]? = some t →
        t.position = .behind (before ++ (laidOut (gaps.take i) (ts.take i) ++ gap)) := by
  induction s using Scanner.tokens.induct generalizing before ts with
  | case1 s first after step ih =>
    obtain ⟨us, more, rfl⟩ := Scanner.tokens_of_token step read
    obtain ⟨gap, layout, whole, standing, behind⟩ := Scanner.exists_gap here step
    obtain ⟨gaps, last, length, layouts, ending, rest, positions⟩ := ih behind more
    refine ⟨gap :: gaps, last, by simp [length], List.forall_mem_cons.mpr ⟨layout, layouts⟩, ending,
      by simp [whole, rest], fun i => ?_⟩
    -- The first token stands behind its gap, the others behind the first token.
    cases i with
    | zero =>
      rintro _ _ ⟨⟩ ⟨⟩
      simpa using standing
    | succ i =>
      intro gap' t isGap isToken
      simpa using positions i gap' t isGap isToken
  | case2 s after step =>
    rw [Scanner.tokens_eq, step] at read
    cases read
    obtain ⟨last, whole, layout⟩ := exists_layout false s.position s.rest
    rw [Scanner.rest_skipBlanks_of_finished step, List.append_nil] at whole
    rw [Scanner.rest_skipBlanks_of_finished step] at layout
    exact ⟨[], last, rfl, List.forall_mem_nil _, layout, whole, by simp⟩
  | case3 s e after step =>
    rw [Scanner.tokens_eq, step] at read
    cases read

/-- **A source that can be read is its tokens with layout around them.** Each token stands where it
says: on the line that the newlines in front of it make, behind as many characters as stand there
since the last of them. -/
theorem eq_laidOut_of_tokenize {source : List Char} {ts : List Token}
    (read : tokenize source = .ok ts) :
    ∃ gaps last, gaps.length = ts.length ∧ (∀ gap ∈ gaps, IsLayout false gap) ∧ IsLayout true last ∧
      source = laidOut gaps ts ++ last ∧
      ∀ (i : Nat) (gap : List Char) (t : Token), gaps[i]? = some gap → ts[i]? = some t →
        t.position = .behind (laidOut (gaps.take i) (ts.take i) ++ gap) :=
  @exists_gaps (.ofChars source) [] Position.behind_nil.symm ts read

/-- Two lines with a comment at the end of each, of which the last is open. -/
def commentedLines : List Char := "%x = add -0x1F, @g ; sum\n\tret 0;done".toList

def commentedTokens : List Token :=
  [⟨.localName, "x", ⟨0, 0⟩⟩, ⟨.equals, "=", ⟨0, 3⟩⟩, ⟨.identifier, "add", ⟨0, 5⟩⟩,
    ⟨.number, "-0x1F", ⟨0, 9⟩⟩, ⟨.comma, ",", ⟨0, 14⟩⟩, ⟨.globalName, "g", ⟨0, 16⟩⟩,
    ⟨.identifier, "ret", ⟨1, 1⟩⟩, ⟨.number, "0", ⟨1, 5⟩⟩]

theorem eq_laidOut_of_commentedLines :
    tokenize commentedLines = .ok commentedTokens ∧
      ∃ gaps last, gaps.length = 8 ∧ (∀ gap ∈ gaps, IsLayout false gap) ∧ IsLayout true last ∧
        commentedLines = laidOut gaps commentedTokens ++ last ∧
        ∀ gap, gaps[6]? = some gap →
          (⟨1, 1⟩ : Position) =
            .behind (laidOut (gaps.take 6) (commentedTokens.take 6) ++ gap) := by
  have read : tokenize commentedLines = .ok commentedTokens := by decide +kernel
  obtain ⟨gaps, last, length, layouts, ending, whole, positions⟩ := eq_laidOut_of_tokenize read
  exact ⟨read, gaps, last, length, layouts, ending, whole,
    fun gap isGap => positions 6 gap _ isGap rfl⟩

/-! ## Tokens that stand alone -/

/-- A token, written where nothing follows it, is read as itself. -/
def Token.StandsAlone (t : Token) : Prop :=
  ∃ c cs, t.written = c :: cs ∧ StartsToken c ∧ lexeme c cs = .ok ⟨t.kind, t.text.toList, []⟩

theorem startsToken_of_skipBlanks {inComment : Bool} {position position' : Position}
    {cs tail : List Char} {head : Char}
    (skipped : skipBlanks inComment position cs = ⟨head :: tail, position'⟩) :
    StartsToken head := by
  fun_induction skipBlanks inComment position cs with
  | case1 => cases skipped
  | case2 inComment position cs ih => exact ih skipped
  | case3 position c cs sameLine ih => exact ih skipped
  | case4 inComment position c cs sameLine outside blank ih => exact ih skipped
  | case5 inComment position cs outside sameLine solid ih => exact ih skipped
  | case6 inComment position c cs sameLine outside solid noComment =>
    cases skipped
    exact ⟨by simpa using solid, noComment⟩

/-- Nothing is left of a run of characters that was taken for having a property. -/
theorem dropWhile_takeWhile (p : Char → Bool) (cs : List Char) :
    (cs.takeWhile p).dropWhile p = [] :=
  List.dropWhile_eq_nil_iff.mpr fun _ mem => List.mem_takeWhile_imp mem

/-- The sign is split off again if what it stands in front of starts as it did. -/
theorem splitSign_append_of_head? {cs sign body core : List Char}
    (split : splitSign cs = (sign, body)) (first : core.head? = body.head?) :
    splitSign (sign ++ core) = (sign, core) := by
  unfold splitSign at split
  split at split
  next =>
    cases split
    rfl
  next unsigned =>
    cases split
    cases core with
    | nil => rfl
    | cons c core =>
      refine splitSign_of_ne ?_ core
      rintro rfl
      obtain ⟨tail, rfl⟩ := List.head?_eq_some_iff.mp first.symm
      exact unsigned tail rfl

theorem splitHexMark?_append_self {body mark ds : List Char}
    (marked : splitHexMark? body = some (mark, ds)) (digits : List Char) :
    splitHexMark? (mark ++ digits) = some (mark, digits) ∧ (mark ++ digits).head? = body.head? := by
  unfold splitHexMark? at marked
  split at marked <;> cases marked <;> exact ⟨rfl, rfl⟩

/-- A number or a word is read again when it stands alone: what it starts with decides its class,
and that is part of it. -/
theorem plainLexeme_alone {head : Char} {tail cs : List Char} {l : Lexeme}
    (read : plainLexeme head tail = .ok l) (written : l.kind.sigil ++ l.text = head :: cs) :
    plainLexeme head cs = .ok ⟨l.kind, l.text, []⟩ := by
  have ends : Ends [] := by simp [Ends]
  have lexical := lexical_of_plainLexeme read .start
  unfold plainLexeme at read
  rcases split : splitSign (head :: tail) with ⟨sign, body⟩
  simp only [split] at read
  split at read
  next mark ds marked =>
    split at read <;> cases read
    next digited =>
    replace written : sign ++ mark ++ ds.takeWhile isHexDigit = head :: cs := written
    obtain ⟨marked, first⟩ := splitHexMark?_append_self marked (ds.takeWhile isHexDigit)
    have signed : splitSign (head :: cs) = (sign, mark ++ ds.takeWhile isHexDigit) := by
      rw [← written, List.append_assoc]
      exact splitSign_append_of_head? split first
    simp [plainLexeme, signed, marked, List.takeWhile_idem, dropWhile_takeWhile, digited]
  next unmarked =>
    split at read
    next digited =>
      cases read
      replace written : sign ++ body.takeWhile isDigit = head :: cs := written
      have first : (body.takeWhile isDigit).head? = body.head? := by
        cases body with
        | nil => rfl
        | cons d body =>
          by_cases digit : isDigit d = true
          · simp [digit]
          · simp [digit] at digited
      have signed : splitSign (head :: cs) = (sign, body.takeWhile isDigit ++ []) := by
        rw [← written, List.append_nil]
        exact splitSign_append_of_head? split first
      exact plainLexeme_number digited (fun d mem => List.mem_takeWhile_imp mem) ends signed
    next undigited =>
      split at read <;> cases read
      replace written : (head :: tail).takeWhile isNameChar = head :: cs := written
      have word := lexical.isWord rfl
      have whole : (String.ofList ((head :: tail).takeWhile isNameChar)).toList = head :: cs := by
        rw [String.toList_ofList, written]
      have chars : ∀ d ∈ head :: cs, isNameChar d = true := whole ▸ word.chars
      have notDigit : isDigit head = false := word.undigited head (by rw [whole]; rfl)
      simpa [written] using plainLexeme_word chars notDigit ends

theorem lexeme_alone {head : Char} {tail cs : List Char} {l : Lexeme}
    (read : lexeme head tail = .ok l) (written : l.kind.sigil ++ l.text = head :: cs) :
    lexeme head cs = .ok ⟨l.kind, l.text, []⟩ := by
  unfold lexeme at read ⊢
  cases marked : punctuation? head with
  | some kind =>
    simp only [marked] at read ⊢
    cases read
    simpa [sigil_of_punctuation? marked, eq_comm] using written
  | none =>
    cases sigiled : nameKind? head with
    | some kind =>
      simp only [marked, sigiled] at read ⊢
      split at read <;> cases read
      next named =>
      obtain rfl : tail.takeWhile isNameChar = cs := by
        simpa [sigil_of_nameKind? sigiled] using written
      simp [List.takeWhile_idem, dropWhile_takeWhile, named]
    | none =>
      simp only [marked, sigiled] at read ⊢
      exact plainLexeme_alone read written

theorem standsAlone_of_next {s after : Scanner} {t : Token} (step : s.next = .token t after) :
    t.StandsAlone := by
  obtain ⟨head, tail, l, skipped, read, kind, text, -, -⟩ := Scanner.of_next_eq_token step
  obtain ⟨whole, nonempty⟩ := lexeme_written read
  obtain ⟨c, cs, written⟩ : ∃ c cs, l.kind.sigil ++ l.text = c :: cs :=
    List.exists_cons_of_ne_nil (by simp [nonempty])
  rw [written] at whole
  obtain ⟨rfl, -⟩ := List.cons.inj whole
  refine ⟨c, cs, ?_, startsToken_of_skipBlanks skipped, ?_⟩
  · rw [Token.written, kind, text, written]
  · rw [kind, text]
    exact lexeme_alone read written

/-! ## Tokens kept apart -/

/-- A token without where it stands. -/
def Token.spelling (t : Token) : TokenKind × String := (t.kind, t.text)

/-- Behind a gap a token is read again, if no character of a name comes next. -/
theorem Token.StandsAlone.tokens {t : Token} (alone : t.StandsAlone) {gap rest : List Char}
    (layout : IsLayout false gap) (ends : Ends rest) (position : Position) :
    ∃ u position', u.spelling = t.spelling ∧
      Scanner.tokens ⟨gap ++ t.written ++ rest, position⟩ =
        (Scanner.tokens ⟨rest, position'⟩).map (u :: ·) := by
  obtain ⟨c, cs, written, starts, read⟩ := alone
  obtain ⟨middle, skipped⟩ := layout.skipBlanks rfl position (c :: (cs ++ rest))
  rw [skipBlanks_of_startsToken starts] at skipped
  have step : Scanner.next ⟨gap ++ t.written ++ rest, position⟩ =
      .token { t with position := middle }
        ⟨rest, middle.right (t.kind.sigil.length + t.text.toList.length)⟩ := by
    simp [Scanner.next, written, skipped, lexeme_append ends read]
  refine ⟨{ t with position := middle },
    middle.right (t.kind.sigil.length + t.text.toList.length), rfl, ?_⟩
  rw [Scanner.tokens_eq, step]

/-- Layout that keeps the next token apart, or ends the source, does not go on with a character of a
name. -/
theorem ends_laidOut {gaps : List (List Char)} {ts : List Token} (length : gaps.length = ts.length)
    (layouts : ∀ gap ∈ gaps, IsLayout false gap) (apart : ∀ gap ∈ gaps, gap ≠ []) {final : Bool}
    {last : List Char} (ending : IsLayout final last) : Ends (laidOut gaps ts ++ last) := by
  match gaps, ts, length with
  | [], [], _ => exact ending.ends
  | gap :: gaps, t :: ts, _ =>
    obtain ⟨c, cs, rfl⟩ := List.exists_cons_of_ne_nil (apart gap List.mem_cons_self)
    have first := (layouts (c :: cs) List.mem_cons_self).ends
    simpa [Ends] using first

/-- Tokens that stand alone are read again from any layout that keeps them apart. -/
theorem tokens_laidOut {ts : List Token} (alone : ∀ t ∈ ts, t.StandsAlone)
    {gaps : List (List Char)} (length : gaps.length = ts.length)
    (layouts : ∀ gap ∈ gaps, IsLayout false gap) (apart : ∀ gap ∈ gaps.tail, gap ≠ [])
    {final : Bool} {last : List Char} (ending : IsLayout final last) (position : Position) :
    ∃ us, Scanner.tokens ⟨laidOut gaps ts ++ last, position⟩ = .ok us ∧
      us.map Token.spelling = ts.map Token.spelling := by
  induction ts generalizing gaps position with
  | nil =>
    obtain rfl := List.length_eq_zero_iff.mp length
    refine ⟨[], ?_, rfl⟩
    have skipped := ending.rest_skipBlanks position
    rw [Scanner.tokens_eq]
    simp [Scanner.next, skipped]
  | cons t ts ih =>
    obtain ⟨gap, gaps, rfl⟩ := List.exists_cons_of_length_eq_add_one length
    obtain ⟨here, layouts⟩ := List.forall_mem_cons.mp layouts
    obtain ⟨first, alone⟩ := List.forall_mem_cons.mp alone
    replace length : gaps.length = ts.length := Nat.succ.inj length
    obtain ⟨u, position', same, read⟩ :=
      first.tokens here (ends_laidOut length layouts apart ending) position
    obtain ⟨us, readMore, spelled⟩ := ih alone length layouts
      (fun gap mem => apart gap (List.mem_of_mem_tail mem)) position'
    refine ⟨u :: us, ?_, by simp [same, spelled]⟩
    rw [laidOut_cons, List.append_assoc, read, readMore]
    rfl

/-- **Layout does not matter.** The tokens of a source, written again with any layout around them
that keeps them apart, are read as the same tokens in other places. -/
theorem tokenize_laidOut {source : List Char} {ts : List Token} (read : tokenize source = .ok ts)
    {gaps : List (List Char)} (length : gaps.length = ts.length)
    (layouts : ∀ gap ∈ gaps, IsLayout false gap) (apart : ∀ gap ∈ gaps.tail, gap ≠ [])
    {final : Bool} {last : List Char} (ending : IsLayout final last) :
    ∃ us, tokenize (laidOut gaps ts ++ last) = .ok us ∧
      us.map Token.spelling = ts.map Token.spelling := by
  have alone : ∀ t ∈ ts, t.StandsAlone :=
    forall_mem_tokens (fun _ => True)
      (fun _ step => ⟨standsAlone_of_next step, trivial⟩) trivial read
  exact tokens_laidOut alone length layouts apart ending .start

theorem tokenize_laidOut_commentedLines :
    tokenize commentedLines = .ok commentedTokens ∧
      ∃ us,
        tokenize (laidOut ([] :: List.replicate 7 "; x 0x1 %\n".toList) commentedTokens ++ ['\n']) =
          .ok us ∧
        us.map Token.spelling = commentedTokens.map Token.spelling := by
  have read : tokenize commentedLines = .ok commentedTokens := by decide +kernel
  have comment : IsLayout false "; x 0x1 %\n".toList :=
    @IsLayout.comment false " x 0x1 %".toList [] (by decide) .nil
  refine ⟨read, tokenize_laidOut read rfl ?_ ?_ (@IsLayout.blank false '\n' [] rfl .nil)⟩
  · refine List.forall_mem_cons.mpr ⟨.nil, fun gap mem => ?_⟩
    rw [List.eq_of_mem_replicate mem]
    exact comment
  · intro gap mem
    rw [List.eq_of_mem_replicate mem]
    decide

end BlockReuse.Source
