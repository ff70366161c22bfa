import BlockReuse.Proofs.Phrases

/-!
# Recognition — the parsers read exactly the phrases of the grammar

Each parser of an instruction's parts is compared with the language of what it answers, in two
directions. What it reads is a phrase of its answer (`Sound`), whatever comes next. And it reads
every phrase and answers what the phrase is one of (`Yields`), where lists and a `ret` ask for
something to come next that does not go on with them; behind an instruction that is a `Boundary`.

Both directions follow the parsers step by step (`Sound.bind`, `Yields.bind`), so that for a parser
made of others only the product of their languages has to be looked at.

An operand is compared as the token it was read from when reading is sound. When reading is
complete, what is given are the tokens of a value, and the operand read stands for that value
(`Through`).
-/

set_option autoImplicit false

namespace BlockReuse.Source

open BlockReuse.Source.Parser

variable {α β : Type} {rest after : List Token}

/-! ## Phrases of one token -/

theorem pure_eq_ok {a b : α} :
    (pure a : Parser α) rest = .ok (b, after) ↔ a = b ∧ rest = after := by
  constructor
  · intro h
    cases h
    exact ⟨rfl, rfl⟩
  · rintro ⟨rfl, rfl⟩
    rfl

theorem token_eq_ok {kind : TokenKind} {what : String} {t : Token} :
    token kind what rest = .ok (t, after) ↔ t.kind = kind ∧ rest = t :: after := by
  unfold token
  split
  · simp
  · next u tail =>
    split
    · next class_ =>
      simp only [Except.ok.injEq, Prod.mk.injEq, List.cons.injEq]
      constructor
      · rintro ⟨rfl, rfl⟩
        exact ⟨class_, rfl, rfl⟩
      · rintro ⟨-, rfl, rfl⟩
        exact ⟨rfl, rfl⟩
    · next class_ =>
      simp only [reduceCtorEq, List.cons.injEq, false_iff]
      rintro ⟨rfl, rfl, rfl⟩
      exact class_ rfl

theorem keyword_eq_ok {word : String} {u : Unit} :
    keyword word rest = .ok (u, after) ↔
      ∃ t, (t.kind = .identifier ∧ t.text = word) ∧ rest = t :: after := by
  unfold keyword
  split
  · simp
  · next t tail =>
    split
    · next is => simp_all [Token.isWord]
    · next is => simp_all [Token.isWord]

/-- An operand is what a token is read as. -/
def Operand.Reads (o : Operand) (t : Token) : Prop := Operand.ofToken t = .ok o

theorem operand_eq_ok {o : Operand} :
    operand rest = .ok (o, after) ↔ ∃ t, o.Reads t ∧ rest = t :: after := by
  unfold operand Operand.Reads
  split
  · simp
  · next t tail =>
    split
    · next read => simp_all
    · next failed => simp_all

theorem not_failAt_ok {t : Token} {e : ParseError} {a : α} :
    (failAt t e : Parser α) rest ≠ .ok (a, after) := by
  simp [failAt]

/-- Reading a token of a class and then answering by what it is, reading nothing more. -/
theorem token_bind_eq_ok {kind : TokenKind} {what : String} {answer : Token → Parser α}
    (means : α → Token → Prop)
    (answers : ∀ t a rest after, answer t rest = .ok (a, after) ↔ means a t ∧ rest = after)
    {a : α} :
    (token kind what >>= answer) rest = .ok (a, after) ↔
      ∃ t, (t.kind = kind ∧ means a t) ∧ rest = t :: after := by
  simp only [bind_eq_ok, token_eq_ok, answers]
  constructor
  · rintro ⟨t, middle, ⟨class_, rfl⟩, meant, rfl⟩
    exact ⟨t, ⟨class_, meant⟩, rfl⟩
  · rintro ⟨t, ⟨class_, meant⟩, rfl⟩
    exact ⟨t, after, ⟨class_, rfl⟩, meant, rfl⟩

theorem typeName_eq_ok {type : IrType} :
    typeName rest = .ok (type, after) ↔
      ∃ t, (t.kind = .identifier ∧ type.Spells t.text) ∧ rest = t :: after := by
  simp only [typeName, ← IrType.ofText?_eq_some]
  refine token_bind_eq_ok (fun type t => IrType.ofText? t.text = some type) fun t a rest after => ?_
  cases IrType.ofText? t.text with
  | some found => simp [pure_eq_ok]
  | none => simp [not_failAt_ok]

theorem predicate_eq_ok {find : String → Option α} {p : α} :
    predicate find rest = .ok (p, after) ↔
      ∃ t, (t.kind = .identifier ∧ find t.text = some p) ∧ rest = t :: after := by
  rw [predicate]
  refine token_bind_eq_ok (fun p t => find t.text = some p) fun t a rest after => ?_
  cases find t.text with
  | some found => simp [pure_eq_ok]
  | none => simp [not_failAt_ok]

theorem pathStep_eq_ok {step : UInt32} :
    pathStep rest = .ok (step, after) ↔
      ∃ t, (t.kind = .number ∧ Text.Writes 10 t.text.toList step.toNat) ∧ rest = t :: after := by
  have read (digits : List Char) (step : UInt32) :
      Text.Writes 10 digits step.toNat ↔
        (Text.decimalBelow? 0x100000000 digits).map UInt32.ofNat = some step := by
    simp only [Option.map_eq_some_iff, Text.decimalBelow?_eq_some]
    constructor
    · intro written
      exact ⟨step.toNat, ⟨written, step.toNat_lt⟩, by simp⟩
    · rintro ⟨n, ⟨written, below⟩, rfl⟩
      rwa [UInt32.toNat_ofNat_of_lt' below]
  simp only [pathStep, read]
  refine token_bind_eq_ok
    (fun step t => (Text.decimalBelow? _ t.text.toList).map UInt32.ofNat = some step)
    fun t a rest after => ?_
  cases Text.decimalBelow? 0x100000000 t.text.toList with
  | some found => simp [pure_eq_ok]
  | none => simp [not_failAt_ok]

theorem blockRef_eq_ok {labels : List String} (distinct : labels.Nodup) {block : Nat} :
    blockRef labels rest = .ok (block, after) ↔
      ∃ t, (t.kind = .identifier ∧ labels[block]? = some t.text) ∧ rest = t :: after := by
  rw [blockRef]
  refine token_bind_eq_ok (fun block t => labels[block]? = some t.text) fun t a rest after => ?_
  split
  · next mem =>
    rw [pure_eq_ok]
    refine and_congr_left fun _ => ?_
    constructor
    · rintro rfl
      rw [List.getElem?_eq_getElem (List.idxOf_lt_length_of_mem mem), List.getElem_idxOf]
    · intro found
      obtain ⟨inRange, found⟩ := List.getElem?_eq_some_iff.mp found
      rw [← found, distinct.idxOf_getElem]
  · next missing =>
    simp only [not_failAt_ok, false_iff, not_and]
    intro found
    exact absurd (List.mem_of_getElem? found) missing

/-! ## Reading phrases -/

/-- What a parser reads behind some tokens goes on with them to a phrase of its answer. -/
def SoundAfter (before : List Token) (p : Parser α) (language : α → Language Token) : Prop :=
  ∀ ⦃rest : List Token⦄ ⦃a : α⦄ ⦃after : List Token⦄, p rest = .ok (a, after) →
    ∃ ts, before ++ ts ∈ language a ∧ rest = ts ++ after

/-- What a parser reads is a phrase of its answer. -/
def Sound (p : Parser α) (language : α → Language Token) : Prop := SoundAfter [] p language

theorem Sound.bind {before : List Token} {p : Parser α} {q : α → Parser β}
    {first : α → Language Token} {language : β → Language Token} (sound : Sound p first)
    (next : ∀ {ts : List Token} (a : α), ts ∈ first a → SoundAfter (before ++ ts) (q a) language) :
    SoundAfter before (p >>= q) language := by
  intro rest b after read
  obtain ⟨a, middle, readFirst, readNext⟩ := bind_eq_ok.mp read
  obtain ⟨ts, isFirst, rfl⟩ := sound readFirst
  obtain ⟨us, mem, rfl⟩ := next a isFirst readNext
  exact ⟨ts ++ us, by rwa [← List.append_assoc], by simp⟩

theorem soundAfter_pure {before : List Token} {a : α} {language : α → Language Token}
    (mem : before ∈ language a) : SoundAfter before (pure a : Parser α) language := by
  intro rest b after read
  obtain ⟨rfl, rfl⟩ := pure_eq_ok.mp read
  exact ⟨[], by rwa [List.append_nil], rfl⟩

theorem soundAfter_failAt {before : List Token} {t : Token} {e : ParseError}
    {language : α → Language Token} : SoundAfter before (failAt t e : Parser α) language :=
  fun _ _ _ read => absurd read not_failAt_ok

/-- A parser reads some tokens up to `after`, and something holds of its answer. -/
def Yields (p : Parser α) (rest : List Token) (holds : α → Prop) (after : List Token) : Prop :=
  ∃ a, holds a ∧ p rest = .ok (a, after)

theorem Yields.bind {p : Parser α} {q : α → Parser β} {rest middle after : List Token}
    {holds : α → Prop} {holds' : β → Prop} (first : Yields p rest holds middle)
    (next : ∀ a, holds a → Yields (q a) middle holds' after) :
    Yields (p >>= q) rest holds' after := by
  obtain ⟨a, answer, readFirst⟩ := first
  obtain ⟨b, answer', readNext⟩ := next a answer
  exact ⟨b, answer', bind_eq_ok.mpr ⟨a, middle, readFirst, readNext⟩⟩

theorem yields_pure {a : α} {holds : α → Prop} (answer : holds a) :
    Yields (pure a) rest holds rest :=
  ⟨a, answer, rfl⟩

/-- A parser reads every phrase, in front of any tokens, and its answer stands for what the phrase
is one of. -/
def Complete (p : Parser α) (stands : α → β) (language : β → Language Token) : Prop :=
  ∀ ⦃ts : List Token⦄ ⦃b : β⦄, ts ∈ language b → ∀ after : List Token,
    Yields p (ts ++ after) (fun a => stands a = b) after

theorem sound_of_eq_ok {p : Parser α} {means : α → Token → Prop}
    (reads : ∀ {rest after : List Token} {a : α},
      p rest = .ok (a, after) ↔ ∃ t, means a t ∧ rest = t :: after) :
    Sound p fun a => Phrase.single (means a) := by
  intro rest a after read
  obtain ⟨t, meant, rfl⟩ := reads.mp read
  exact ⟨[t], ⟨t, meant, rfl⟩, rfl⟩

theorem complete_of_eq_ok {p : Parser α} {means : α → Token → Prop}
    (reads : ∀ {rest after : List Token} {a : α},
      p rest = .ok (a, after) ↔ ∃ t, means a t ∧ rest = t :: after) :
    Complete p id fun a => Phrase.single (means a) := by
  rintro _ a ⟨t, meant, rfl⟩ after
  exact ⟨a, rfl, reads.mpr ⟨t, meant, rfl⟩⟩

theorem sound_token (kind : TokenKind) (what : String) :
    Sound (token kind what) fun t => Phrase.spelled kind t.text := by
  intro rest t after read
  obtain ⟨class_, rfl⟩ := token_eq_ok.mp read
  exact ⟨[t], ⟨t, ⟨class_, rfl⟩, rfl⟩, rfl⟩

theorem complete_token (kind : TokenKind) (what : String) :
    Complete (token kind what) Token.text (Phrase.spelled kind) := by
  rintro _ text ⟨t, ⟨class_, rfl⟩, rfl⟩ after
  exact ⟨t, rfl, token_eq_ok.mpr ⟨class_, rfl⟩⟩

theorem sound_mark (kind : TokenKind) (what : String) :
    Sound (token kind what) fun _ => Phrase.mark kind := by
  intro rest t after read
  obtain ⟨class_, rfl⟩ := token_eq_ok.mp read
  exact ⟨[t], ⟨t, class_, rfl⟩, rfl⟩

theorem yields_mark {kind : TokenKind} {ts : List Token} (mem : ts ∈ Phrase.mark kind)
    (what : String) (after : List Token) :
    Yields (token kind what) (ts ++ after) (fun _ => True) after := by
  obtain ⟨t, class_, rfl⟩ := mem
  exact ⟨t, trivial, token_eq_ok.mpr ⟨class_, rfl⟩⟩

/-- A token is read as an operand that stands for a value. -/
def Through (stands : Operand → β) (v : β) (t : Token) : Prop := ∃ o, o.Reads t ∧ stands o = v

theorem Through.exists_reads {stands : Operand → β} {v : β} {t : Token}
    (through : Through stands v t) : ∃ o, Operand.Reads o t := by
  obtain ⟨o, read, -⟩ := through
  exact ⟨o, read⟩

theorem sound_operand : Sound operand fun o => Phrase.single o.Reads := sound_of_eq_ok operand_eq_ok

theorem complete_operand (stands : Operand → β) :
    Complete operand stands fun v => Phrase.single (Through stands v) := by
  rintro _ _ ⟨t, ⟨o, read, rfl⟩, rfl⟩ after
  exact ⟨o, rfl, operand_eq_ok.mpr ⟨t, read, rfl⟩⟩

theorem sound_operands2 :
    Sound operands2 fun (a, b) => Phrase.values Operand.Reads [a, b] := by
  refine sound_operand.bind fun a isA => (sound_mark _ _).bind fun _ isComma =>
    sound_operand.bind fun b isB => soundAfter_pure ?_
  simp only [Phrase.values_cons_cons, Phrase.values_one, ← mul_assoc]
  exact Language.append_mem_mul (Language.append_mem_mul isA isComma) isB

theorem complete_operands2 (stands : Operand → β) :
    Complete operands2 (Prod.map stands stands)
      fun (a, b) => Phrase.values (Through stands) [a, b] := by
  rintro ts ⟨_, _⟩ mem after
  simp only [Phrase.values_cons_cons, Phrase.values_one] at mem
  obtain ⟨ts, isA, _, ⟨us, isComma, vs, isB, rfl⟩, rfl⟩ := mem
  simp only [List.append_assoc]
  exact (complete_operand stands isA _).bind fun a forA => (yields_mark isComma _ _).bind fun _ _ =>
    (complete_operand stands isB _).bind fun b forB => yields_pure (by simp [forA, forB])

theorem operands3_eq :
    operands3 =
      operand >>= fun a => comma >>= fun _ => operands2 >>= fun pair => pure (a, pair) := by
  simp [operands3, operands2]

theorem sound_operands3 :
    Sound operands3 fun (a, b, c) => Phrase.values Operand.Reads [a, b, c] := by
  rw [operands3_eq]
  refine sound_operand.bind fun a isA => (sound_mark _ _).bind fun _ isComma =>
    sound_operands2.bind fun (b, c) isPair => soundAfter_pure ?_
  simp only [Phrase.values_cons_cons _ a, ← mul_assoc]
  exact Language.append_mem_mul (Language.append_mem_mul isA isComma) isPair

theorem complete_operands3 (stands : Operand → β) :
    Complete operands3 (Prod.map stands (Prod.map stands stands))
      fun (a, b, c) => Phrase.values (Through stands) [a, b, c] := by
  rintro ts ⟨a, b, c⟩ mem after
  simp only [Phrase.values_cons_cons _ a] at mem
  obtain ⟨ts, isA, _, ⟨us, isComma, vs, isPair, rfl⟩, rfl⟩ := mem
  rw [operands3_eq]
  simp only [List.append_assoc]
  have readPair := @complete_operands2 _ stands vs (b, c) isPair after
  exact (complete_operand stands isA _).bind fun a forA => (yields_mark isComma _ _).bind fun _ _ =>
    readPair.bind fun pair forPair => yields_pure (by simp [forA, forPair])

/-! ## Lists -/

/-- The class of the next token. -/
def nextKind (rest : List Token) : Option TokenKind := rest.head?.map Token.kind

theorem nextIs_bind {kind : TokenKind} {p : Bool → Parser α} :
    (nextIs kind >>= p) rest = p (decide (nextKind rest = some kind)) rest := by
  have same : (rest.head?.any fun t => decide (t.kind = kind)) =
      decide (nextKind rest = some kind) := by
    cases rest <;> simp [nextKind]
  rw [← same]
  rfl

/-- A parser that only looks at what comes next reads nothing. -/
theorem Sound.bind_look {before : List Token} {p : Parser α} {q : α → Parser β}
    {language : β → Language Token} (looks : Sound p fun _ => 1)
    (next : ∀ a, SoundAfter before (q a) language) : SoundAfter before (p >>= q) language := by
  refine looks.bind fun a nothing => ?_
  obtain rfl := (Language.mem_one _).mp nothing
  rw [List.append_nil]
  exact next a

theorem sound_nextIs (kind : TokenKind) : Sound (nextIs kind) fun _ => 1 := by
  intro rest b after read
  cases read
  exact ⟨[], Language.nil_mem_one, rfl⟩

theorem yields_nextIs {kind : TokenKind} {p : Bool → Parser α} {holds : α → Prop}
    (yields : Yields (p (decide (nextKind rest = some kind))) rest holds after) :
    Yields (nextIs kind >>= p) rest holds after := by
  obtain ⟨a, answer, read⟩ := yields
  exact ⟨a, answer, by rwa [nextIs_bind]⟩

theorem sound_afterCommas {item : Parser α} {language : α → Language Token}
    (sound : Sound item language) :
    Sound (afterCommas item) fun as => Phrase.behindCommas (as.map language) := by
  have within (limit : Nat) :
      Sound (afterCommasWithin item limit) fun as => Phrase.behindCommas (as.map language) := by
    induction limit with
    | zero => exact soundAfter_pure Language.nil_mem_one
    | succ limit ih =>
      refine (sound_nextIs _).bind_look fun next => ?_
      split
      · refine (sound_mark _ _).bind fun _ isComma => sound.bind fun a isItem =>
          ih.bind fun as isMore => soundAfter_pure ?_
        simp only [List.map_cons, Phrase.behindCommas_cons]
        exact Language.append_mem_mul (Language.append_mem_mul isComma isItem) isMore
      · exact soundAfter_pure Language.nil_mem_one
  exact fun rest _ _ read => within rest.length read

theorem yields_afterCommas {item : Parser α} {stands : α → β} {language : β → Language Token}
    (complete : Complete item stands language) {bs : List β} {ts : List Token}
    (mem : ts ∈ Phrase.behindCommas (bs.map language)) {after : List Token}
    (ended : nextKind after ≠ some .comma) :
    Yields (afterCommas item) (ts ++ after) (fun as => as.map stands = bs) after := by
  -- Each round reads a comma, so there are fewer rounds than tokens.
  suffices within : ∀ limit, (ts ++ after).length ≤ limit →
      Yields (afterCommasWithin item limit) (ts ++ after) (fun as => as.map stands = bs) after from
    within _ (le_refl _)
  induction bs generalizing ts with
  | nil =>
    intro limit enough
    obtain rfl : ts = [] := (Language.mem_one ts).mp mem
    cases limit with
    | zero => exact yields_pure rfl
    | succ limit =>
      refine yields_nextIs ?_
      rw [if_neg (by simpa using ended)]
      exact yields_pure rfl
  | cons b bs ih =>
    intro limit enough
    rw [List.map_cons, Phrase.behindCommas_cons] at mem
    obtain ⟨_, ⟨_, ⟨t, isComma, rfl⟩, us, isItem, rfl⟩, vs, isMore, rfl⟩ := mem
    cases limit with
    | zero => simp at enough
    | succ limit =>
      have shorter : (vs ++ after).length ≤ limit := by
        simp only [List.length_append, List.length_singleton] at enough ⊢
        omega
      simp only [List.append_assoc]
      refine yields_nextIs ?_
      rw [if_pos (by simpa [nextKind] using isComma)]
      exact (yields_mark ⟨t, isComma, rfl⟩ _ _).bind fun _ _ =>
        (complete isItem _).bind fun a forItem => (ih isMore limit shorter).bind fun as forMore =>
          yields_pure (by simp [forItem, forMore])

theorem sound_path : Sound path Phrase.path := by
  refine (sound_afterCommas (sound_of_eq_ok pathStep_eq_ok)).bind fun steps isSteps => ?_
  split
  · exact fun _ _ _ read => by cases read
  · next nonempty =>
    obtain ⟨first, more, rfl⟩ := List.exists_cons_of_ne_nil nonempty
    exact soundAfter_pure isSteps

theorem yields_path {steps : List UInt32} {ts : List Token} (mem : ts ∈ Phrase.path steps)
    {after : List Token} (ended : nextKind after ≠ some .comma) :
    Yields path (ts ++ after) (fun read => read = steps) after := by
  cases steps with
  | nil => exact absurd mem (Language.notMem_zero _)
  | cons first more =>
    refine (yields_afterCommas (complete_of_eq_ok pathStep_eq_ok) mem ended).bind
      fun steps same => ?_
    rw [List.map_id] at same
    subst same
    exact yields_pure rfl

theorem sound_incoming {labels : List String} (distinct : labels.Nodup) :
    Sound (incoming labels) (Phrase.incoming Operand.Reads labels) :=
  (sound_mark _ _).bind fun _ isOpen =>
    (sound_of_eq_ok (blockRef_eq_ok distinct)).bind fun _ isBlock =>
      (sound_mark _ _).bind fun _ isComma => sound_operand.bind fun _ isValue =>
        (sound_mark _ _).bind fun _ isClose => soundAfter_pure
          (Language.append_mem_mul (Language.append_mem_mul (Language.append_mem_mul
            (Language.append_mem_mul isOpen isBlock) isComma) isValue) isClose)

theorem complete_incoming (stands : Operand → β) {labels : List String} (distinct : labels.Nodup) :
    Complete (incoming labels) (Prod.map id stands)
      (Phrase.incoming (Through stands) labels) := by
  rintro _ ⟨block, value⟩ mem after
  obtain ⟨_, ⟨_, ⟨_, ⟨ts, isOpen, us, isBlock, rfl⟩, vs, isComma, rfl⟩, ws, isValue, rfl⟩,
    xs, isClose, rfl⟩ := mem
  have readBlock := complete_of_eq_ok (blockRef_eq_ok distinct) isBlock
  simp only [List.append_assoc]
  exact (yields_mark isOpen _ _).bind fun _ _ => (readBlock _).bind fun b forBlock =>
    (yields_mark isComma _ _).bind fun _ _ =>
      (complete_operand stands isValue _).bind fun v forValue =>
        (yields_mark isClose _ _).bind fun _ _ => yields_pure (Prod.ext forBlock forValue)

theorem sound_parenList {item : Parser α} {language : α → Language Token}
    (sound : Sound item language) :
    Sound (parenList item) fun as => Phrase.listed (as.map language) * Phrase.mark .closeParen := by
  refine (sound_nextIs _).bind_look fun next => ?_
  split
  · exact (sound_mark _ _).bind fun _ isClose =>
      soundAfter_pure (Language.append_mem_mul Language.nil_mem_one isClose)
  · exact sound.bind fun first isFirst => (sound_afterCommas sound).bind fun more isMore =>
      (sound_mark _ _).bind fun _ isClose => soundAfter_pure
        (Language.append_mem_mul (Language.append_mem_mul isFirst isMore) isClose)

theorem complete_parenList {item : Parser α} {stands : α → β} {language : β → Language Token}
    (complete : Complete item stands language)
    (unclosed : ∀ b, ∀ ts ∈ language b, ∃ t tail, ts = t :: tail ∧ t.kind ≠ .closeParen) :
    Complete (parenList item) (List.map stands) fun bs =>
      Phrase.listed (bs.map language) * Phrase.mark .closeParen := by
  rintro _ bs ⟨ts, mem, us, isClose, rfl⟩ after
  have closes : nextKind (us ++ after) = some .closeParen := by
    obtain ⟨t, class_, rfl⟩ := isClose
    simp [nextKind, class_]
  refine yields_nextIs ?_
  cases bs with
  | nil =>
    obtain rfl : ts = [] := (Language.mem_one ts).mp mem
    rw [if_pos (by simpa using closes)]
    exact (yields_mark isClose _ _).bind fun _ _ => yields_pure rfl
  | cons b bs =>
    obtain ⟨ts, isFirst, vs, isMore, rfl⟩ := mem
    have opens : nextKind (ts ++ vs ++ us ++ after) ≠ some .closeParen := by
      obtain ⟨t, tail, rfl, notClosed⟩ := unclosed b ts isFirst
      simpa [nextKind] using notClosed
    have ended : nextKind (us ++ after) ≠ some .comma := by simp [closes]
    rw [if_neg (by simpa using opens)]
    simp only [List.append_assoc]
    exact (complete isFirst _).bind fun a forFirst =>
      (yields_afterCommas complete isMore ended).bind fun as forMore =>
        (yields_mark isClose _ _).bind fun _ _ => yields_pure (by simp [forFirst, forMore])

/-! ## Words that may be there or not -/

theorem sound_optionalKeyword (word : String) :
    Sound (optionalKeyword word) (Phrase.optionalWord word) := by
  intro rest present after read
  unfold optionalKeyword at read
  split at read
  · cases read
    exact ⟨[], Language.nil_mem_one, rfl⟩
  · next t tail =>
    split at read
    · next is =>
      cases read
      exact ⟨[t], ⟨t, by simpa [Token.isWord] using is, rfl⟩, rfl⟩
    · cases read
      exact ⟨[], Language.nil_mem_one, rfl⟩

theorem yields_optionalKeyword {word : String} (present : Bool) {ts : List Token}
    (mem : ts ∈ Phrase.optionalWord word present) {t : Token} {tail : List Token}
    (other : t.isWord word = false) :
    Yields (optionalKeyword word) (ts ++ t :: tail) (fun found => found = present) (t :: tail) := by
  refine ⟨present, rfl, ?_⟩
  cases present with
  | false =>
    obtain rfl : ts = [] := (Language.mem_one ts).mp mem
    simp [optionalKeyword, other]
  | true =>
    obtain ⟨u, ⟨class_, same⟩, rfl⟩ := mem
    simp [optionalKeyword, Token.isWord, class_, same]

theorem sound_callEffects : Sound callEffects Phrase.callEffects := by
  refine (sound_optionalKeyword _).bind fun isNone none_ => ?_
  cases isNone with
  | true => exact soundAfter_pure none_
  | false =>
    obtain rfl := (Language.mem_one _).mp none_
    refine (sound_optionalKeyword _).bind fun isRead read => ?_
    cases isRead with
    | true => exact soundAfter_pure read
    | false => exact soundAfter_pure read

theorem yields_callEffects {effects : Effects} {ts : List Token}
    (mem : ts ∈ Phrase.callEffects effects) {t : Token} {tail : List Token}
    (other : t.kind ≠ .identifier) :
    Yields callEffects (ts ++ t :: tail) (fun read => read = effects) (t :: tail) := by
  have otherWord (word : String) : t.isWord word = false := by simp [Token.isWord, other]
  have absent (word : String) : ([] : List Token) ∈ Phrase.optionalWord word false :=
    Language.nil_mem_one
  rcases effects with ⟨_ | _, _ | _⟩
  · refine (yields_optionalKeyword true mem (otherWord _)).bind fun b found => ?_
    subst found
    exact yields_pure rfl
  · exact absurd mem (Language.notMem_zero _)
  · -- The word for reading is not the one for touching no memory.
    obtain ⟨u, ⟨class_, same⟩, rfl⟩ := mem
    have notNone : u.isWord "readnone" = false := by simp [Token.isWord, same]
    refine (yields_optionalKeyword false (absent _) notNone).bind fun b found => ?_
    subst found
    refine (yields_optionalKeyword true ⟨u, ⟨class_, same⟩, rfl⟩ (otherWord _)).bind
      fun b found => ?_
    subst found
    exact yields_pure rfl
  · obtain rfl : ts = [] := (Language.mem_one ts).mp mem
    refine (yields_optionalKeyword false (absent _) (otherWord _)).bind fun b found => ?_
    subst found
    refine (yields_optionalKeyword false (absent _) (otherWord _)).bind fun b found => ?_
    subst found
    exact yields_pure rfl

/-! ## Instructions -/

/-- What comes behind an instruction: the closing brace, a label or a mnemonic, or the name of a
result. -/
inductive Boundary : List Token → Prop where
  | close {t : Token} {rest : List Token} (brace : t.kind = .closeBrace) : Boundary (t :: rest)
  | word {t : Token} {rest : List Token} (identifier : t.kind = .identifier) : Boundary (t :: rest)
  | result {t u : Token} {rest : List Token} (name : t.kind = .localName)
    (equals : u.kind = .equals) : Boundary (t :: u :: rest)

theorem Boundary.nextKind_ne {after : List Token} (boundary : Boundary after) {kind : TokenKind}
    (close : kind ≠ .closeBrace) (word : kind ≠ .identifier) (name : kind ≠ .localName) :
    nextKind after ≠ some kind := by
  cases boundary <;> simp_all [nextKind, eq_comm]

theorem sound_returnsValue : Sound returnsValue fun _ => 1 := by
  intro rest given after read
  unfold returnsValue at read
  split at read <;> cases read <;> exact ⟨[], Language.nil_mem_one, rfl⟩

theorem returnsValue_boundary {after : List Token} (boundary : Boundary after) :
    returnsValue after = .ok (false, after) := by
  cases boundary <;> simp_all [returnsValue]

/-- The classes of the tokens that are operands. -/
theorem kind_of_reads {o : Operand} {t : Token} (read : o.Reads t) :
    t.kind = .localName ∨ t.kind = .globalName ∨ t.kind = .number := by
  unfold Operand.Reads Operand.ofToken at read
  split at read <;> simp_all

theorem kind_ne_of_reads {o : Operand} {t : Token} (read : o.Reads t) {kind : TokenKind}
    (other : (kind == .localName || kind == .globalName || kind == .number) = false) :
    t.kind ≠ kind := by
  rintro rfl
  rcases kind_of_reads read with class_ | class_ | class_ <;> simp [class_] at other

theorem returnsValue_operand {o : Operand} {t : Token} (read : o.Reads t) {after : List Token}
    (boundary : Boundary after) : returnsValue (t :: after) = .ok (true, t :: after) := by
  have notEquals : nextKind after ≠ some .equals :=
    boundary.nextKind_ne (by decide) (by decide) (by decide)
  have unnamed : (after.head?.any fun n => decide (n.kind = .equals)) = false := by
    cases after <;> simp_all [nextKind]
  rcases kind_of_reads read with class_ | class_ | class_ <;> simp [returnsValue, class_, unnamed]

theorem not_isWord_of_spells {type : IrType} {t : Token} (spelled : type.Spells t.text) :
    t.isWord "volatile" = false := by
  have none : IrType.ofText? "volatile" = none := by decide
  have other : t.text ≠ "volatile" := by
    intro same
    rw [same, ← IrType.ofText?_eq_some, none] at spelled
    cases spelled
  simp [Token.isWord, other]

theorem intPredicate_eq_some {word : String} {p : IntPredicate} :
    IntPredicate.ofMnemonic? word = some p ↔ word = p.mnemonic := by
  constructor
  · intro found
    have same := List.find?_some found
    exact (eq_of_beq same).symm
  · rintro rfl
    exact p.ofMnemonic?_mnemonic

theorem floatPredicate_eq_some {word : String} {p : FloatPredicate} :
    FloatPredicate.ofMnemonic? word = some p ↔ word = p.mnemonic := by
  constructor
  · intro found
    have same := List.find?_some found
    exact (eq_of_beq same).symm
  · rintro rfl
    exact p.ofMnemonic?_mnemonic

theorem mnemonic_eq_some {word : String} {m : Mnemonic} :
    Mnemonic.ofText? word = some m ↔ word = m.text := by
  constructor
  · intro found
    have same := List.find?_some found
    exact (eq_of_beq same).symm
  · rintro rfl
    exact m.ofText?_text


/-- What is read behind a mnemonic is a phrase of an instruction with that mnemonic. -/
theorem sound_instruction {labels : List String} (distinct : labels.Nodup) (m : Mnemonic) :
    Sound (instruction labels m) fun x =>
      {ts | x.mnemonic = m ∧ ts ∈ Phrase.tail Operand.Reads labels x} := by
  have typed := sound_of_eq_ok typeName_eq_ok
  have block := sound_of_eq_ok (blockRef_eq_ok distinct)
  have value {o : Operand} {ts : List Token} (mem : ts ∈ Phrase.single o.Reads) :
      ts ∈ Phrase.values Operand.Reads [o] := by rwa [Phrase.values_one]
  cases m with
  | binary op => exact sound_operands2.bind fun _ isPair => soundAfter_pure ⟨rfl, isPair⟩
  | cast op =>
    exact sound_operand.bind fun _ isValue => (sound_of_eq_ok keyword_eq_ok).bind fun _ isTo =>
      typed.bind fun _ isType => soundAfter_pure
        ⟨rfl, Language.append_mem_mul (Language.append_mem_mul (value isValue) isTo) isType⟩
  | icmp =>
    refine (sound_of_eq_ok predicate_eq_ok).bind fun p isPredicate => sound_operands2.bind
      fun _ isPair => soundAfter_pure ⟨rfl, Language.append_mem_mul ?_ isPair⟩
    simp only [intPredicate_eq_some] at isPredicate
    exact isPredicate
  | fcmp =>
    refine (sound_of_eq_ok predicate_eq_ok).bind fun p isPredicate => sound_operands2.bind
      fun _ isPair => soundAfter_pure ⟨rfl, Language.append_mem_mul ?_ isPair⟩
    simp only [floatPredicate_eq_some] at isPredicate
    exact isPredicate
  | extractElement => exact sound_operands2.bind fun _ isPair => soundAfter_pure ⟨rfl, isPair⟩
  | insertElement => exact sound_operands3.bind fun _ isTriple => soundAfter_pure ⟨rfl, isTriple⟩
  | shuffleVector => exact sound_operands3.bind fun _ isTriple => soundAfter_pure ⟨rfl, isTriple⟩
  | gep =>
    refine typed.bind fun _ isType => sound_operand.bind fun _ isBase =>
      (sound_afterCommas sound_operand).bind fun _ isIndices => soundAfter_pure ⟨rfl, ?_⟩
    rw [List.append_assoc]
    exact Language.append_mem_mul isType (Language.append_mem_mul isBase isIndices)
  | extractValue =>
    exact sound_operand.bind fun _ isAggregate => sound_path.bind fun _ isPath =>
      soundAfter_pure ⟨rfl, Language.append_mem_mul (value isAggregate) isPath⟩
  | insertValue =>
    exact sound_operands2.bind fun _ isPair => sound_path.bind fun _ isPath =>
      soundAfter_pure ⟨rfl, Language.append_mem_mul isPair isPath⟩
  | phi =>
    exact (sound_incoming distinct).bind fun _ isFirst =>
      (sound_afterCommas (sound_incoming distinct)).bind fun _ isMore =>
        soundAfter_pure ⟨rfl, Language.append_mem_mul isFirst isMore⟩
  | select => exact sound_operands3.bind fun _ isTriple => soundAfter_pure ⟨rfl, isTriple⟩
  | load =>
    exact (sound_optionalKeyword _).bind fun _ isVolatile => typed.bind fun _ isType =>
      (sound_mark _ _).bind fun _ isComma => sound_operand.bind fun _ isPointer => soundAfter_pure
        ⟨rfl, Language.append_mem_mul (Language.append_mem_mul
          (Language.append_mem_mul isVolatile isType) isComma) (value isPointer)⟩
  | store =>
    exact (sound_optionalKeyword _).bind fun _ isVolatile => typed.bind fun _ isType =>
      sound_operands2.bind fun _ isPair => soundAfter_pure
        ⟨rfl, Language.append_mem_mul (Language.append_mem_mul isVolatile isType) isPair⟩
  | alloca => exact typed.bind fun _ isType => soundAfter_pure ⟨rfl, isType⟩
  | call =>
    refine sound_callEffects.bind fun _ isEffects => sound_operand.bind fun _ isCallee =>
      (sound_mark _ _).bind fun _ isOpen => (sound_parenList sound_operand).bind
        fun _ isArguments => soundAfter_pure ⟨rfl, ?_⟩
    rw [Phrase.tail, mul_assoc (_ * _)]
    exact Language.append_mem_mul (Language.append_mem_mul
      (Language.append_mem_mul isEffects (value isCallee)) isOpen) isArguments
  | fence => exact soundAfter_pure ⟨rfl, Language.nil_mem_one⟩
  | br =>
    refine (sound_nextIs _).bind_look fun named => ?_
    split
    · exact block.bind fun _ isTarget => soundAfter_pure ⟨rfl, isTarget⟩
    · refine sound_operand.bind fun _ isCondition => (sound_mark _ _).bind fun _ isComma =>
        block.bind fun _ isTrue => (sound_mark _ _).bind fun _ isComma' => block.bind
          fun _ isFalse => soundAfter_pure ⟨rfl, ?_⟩
      rw [Phrase.tail, Phrase.listed_three]
      exact Language.append_mem_mul (Language.append_mem_mul (Language.append_mem_mul
        (Language.append_mem_mul isCondition isComma) isTrue) isComma') isFalse
  | ret =>
    refine sound_returnsValue.bind_look fun given => ?_
    split
    · exact sound_operand.bind fun _ isValue => soundAfter_pure ⟨rfl, value isValue⟩
    · exact soundAfter_pure ⟨rfl, Language.nil_mem_one⟩

/-- Behind its mnemonic, in front of a boundary, every phrase of an instruction is read. -/
theorem yields_instruction (stands : Operand → β) {labels : List String} (distinct : labels.Nodup)
    {x : Instruction β} {ts : List Token} (mem : ts ∈ Phrase.tail (Through stands) labels x)
    {after : List Token} (boundary : Boundary after) :
    Yields (instruction labels x.mnemonic) (ts ++ after) (fun y => y.map stands = x) after := by
  have typed := complete_of_eq_ok typeName_eq_ok
  have block := complete_of_eq_ok (blockRef_eq_ok distinct)
  have value := complete_operand stands
  have two := complete_operands2 stands
  have three := complete_operands3 stands
  have ended : nextKind after ≠ some .comma :=
    boundary.nextKind_ne (by decide) (by decide) (by decide)
  cases x with
  | binary op left right =>
    exact (@two _ (left, right) mem _).bind fun (a, b) same =>
      yields_pure (by cases same; rfl)
  | compare predicate left right =>
    obtain ⟨us, isPredicate, vs, isPair, rfl⟩ := mem
    rw [List.append_assoc]
    have readPair := @two _ (left, right) isPair after
    cases predicate with
    | int p =>
      obtain ⟨t, ⟨class_, same⟩, rfl⟩ := isPredicate
      have readPredicate : Yields (predicate IntPredicate.ofMnemonic?) ([t] ++ (vs ++ after))
          (fun q => q = p) (vs ++ after) :=
        ⟨p, rfl, predicate_eq_ok.mpr ⟨t, ⟨class_, intPredicate_eq_some.mpr same⟩, rfl⟩⟩
      exact readPredicate.bind fun q isP => readPair.bind fun (a, b) same =>
        yields_pure (by cases isP; cases same; rfl)
    | float p =>
      obtain ⟨t, ⟨class_, same⟩, rfl⟩ := isPredicate
      have readPredicate : Yields (predicate FloatPredicate.ofMnemonic?) ([t] ++ (vs ++ after))
          (fun q => q = p) (vs ++ after) :=
        ⟨p, rfl, predicate_eq_ok.mpr ⟨t, ⟨class_, floatPredicate_eq_some.mpr same⟩, rfl⟩⟩
      exact readPredicate.bind fun q isP => readPair.bind fun (a, b) same =>
        yields_pure (by cases isP; cases same; rfl)
  | extractElement vector index =>
    exact (@two _ (vector, index) mem _).bind fun (a, b) same => yields_pure (by cases same; rfl)
  | insertElement vector value index =>
    exact (@three _ (vector, value, index) mem _).bind fun (a, b, c) same =>
      yields_pure (by cases same; rfl)
  | shuffleVector left right mask =>
    exact (@three _ (left, right, mask) mem _).bind fun (a, b, c) same =>
      yields_pure (by cases same; rfl)
  | gep element base indices =>
    obtain ⟨us, isType, _, ⟨vs, isBase, ws, isIndices, rfl⟩, rfl⟩ := mem
    simp only [List.append_assoc]
    exact (typed isType _).bind fun _ isElement => (value isBase _).bind fun a isA =>
      (yields_afterCommas value isIndices ended).bind fun as areAs =>
        yields_pure (by cases isElement; cases isA; cases areAs; rfl)
  | extractValue aggregate steps =>
    obtain ⟨us, isAggregate, vs, isPath, rfl⟩ := mem
    rw [Phrase.values_one] at isAggregate
    rw [List.append_assoc]
    exact (value isAggregate _).bind fun a isA => (yields_path isPath ended).bind fun read same =>
      yields_pure (by cases isA; cases same; rfl)
  | insertValue aggregate inserted steps =>
    obtain ⟨us, isPair, vs, isPath, rfl⟩ := mem
    rw [List.append_assoc]
    exact (@two _ (aggregate, inserted) isPair _).bind fun (a, b) same =>
      (yields_path isPath ended).bind fun read same' =>
        yields_pure (by cases same; cases same'; rfl)
  | phi arms =>
    cases arms with
    | nil => exact absurd mem (Language.notMem_zero _)
    | cons first more =>
      obtain ⟨us, isFirst, vs, isMore, rfl⟩ := mem
      rw [List.append_assoc]
      exact (complete_incoming stands distinct isFirst _).bind fun a isA =>
        (yields_afterCommas (complete_incoming stands distinct) isMore ended).bind fun as areAs =>
          yields_pure (by cases isA; cases areAs; rfl)
  | select condition ifTrue ifFalse =>
    exact (@three _ (condition, ifTrue, ifFalse) mem _).bind fun (a, b, c) same =>
      yields_pure (by cases same; rfl)
  | cast op operand target =>
    obtain ⟨_, ⟨us, isValue, vs, isTo, rfl⟩, ws, isType, rfl⟩ := mem
    rw [Phrase.values_one] at isValue
    simp only [List.append_assoc]
    have readTo := @complete_of_eq_ok _ (keyword "to") _ keyword_eq_ok _ () isTo
    exact (value isValue _).bind fun a isA => (readTo _).bind fun _ _ =>
      (typed isType _).bind fun type isTarget => yields_pure (by cases isA; cases isTarget; rfl)
  | load type pointer isVolatile =>
    obtain ⟨_, ⟨_, ⟨us, volatile, _, ⟨t, isType, rfl⟩, rfl⟩, vs, isComma, rfl⟩,
      ws, isPointer, rfl⟩ := mem
    rw [Phrase.values_one] at isPointer
    simp only [List.append_assoc, List.singleton_append]
    exact (yields_optionalKeyword isVolatile volatile (not_isWord_of_spells isType.2)).bind
      fun _ isV => (typed ⟨t, isType, rfl⟩ _).bind fun _ isT =>
        (yields_mark isComma _ _).bind fun _ _ => (value isPointer _).bind fun a isA =>
          yields_pure (by cases isV; cases isT; cases isA; rfl)
  | store type stored pointer isVolatile =>
    obtain ⟨_, ⟨us, volatile, _, ⟨t, isType, rfl⟩, rfl⟩, vs, isPair, rfl⟩ := mem
    simp only [List.append_assoc, List.singleton_append]
    exact (yields_optionalKeyword isVolatile volatile (not_isWord_of_spells isType.2)).bind
      fun _ isV => (typed ⟨t, isType, rfl⟩ _).bind fun _ isT =>
        (@two _ (stored, pointer) isPair _).bind fun (a, b) same =>
          yields_pure (by cases isV; cases isT; cases same; rfl)
  | alloca type => exact (typed mem _).bind fun _ isT => yields_pure (by cases isT; rfl)
  | call callee arguments effects =>
    rw [Phrase.tail, mul_assoc (_ * _)] at mem
    obtain ⟨_, ⟨_, ⟨us, isEffects, _, isCallee, rfl⟩, ws, isOpen, rfl⟩,
      xs, areArguments, rfl⟩ := mem
    rw [Phrase.values_one] at isCallee
    obtain ⟨t, ⟨o, read, rfl⟩, rfl⟩ := isCallee
    have readArguments := complete_parenList value fun b ts mem => by
      obtain ⟨t, ⟨o, read, rfl⟩, rfl⟩ := mem
      exact ⟨t, [], rfl, kind_ne_of_reads read rfl⟩
    simp only [List.append_assoc, List.singleton_append]
    exact (yields_callEffects isEffects (kind_ne_of_reads read rfl)).bind fun _ areEffects =>
      (value ⟨t, ⟨o, read, rfl⟩, rfl⟩ _).bind fun a isA => (yields_mark isOpen _ _).bind fun _ _ =>
        (readArguments areArguments _).bind fun as areAs =>
          yields_pure (by cases areEffects; cases areAs; simp only [Instruction.map, isA])
  | fence =>
    obtain rfl := (Language.mem_one _).mp mem
    exact yields_pure rfl
  | branch target =>
    obtain ⟨t, isTarget, rfl⟩ := mem
    refine yields_nextIs ?_
    rw [if_pos (by simpa [nextKind] using isTarget.1)]
    exact (block ⟨t, isTarget, rfl⟩ _).bind fun _ isB => yields_pure (by cases isB; rfl)
  | condBranch condition ifTrue ifFalse =>
    rw [Phrase.tail, Phrase.listed_three] at mem
    obtain ⟨_, ⟨_, ⟨_, ⟨_, ⟨t, ⟨o, read, rfl⟩, rfl⟩, us, isComma, rfl⟩, vs, isTrue, rfl⟩,
      ws, isComma', rfl⟩, xs, isFalse, rfl⟩ := mem
    simp only [List.append_assoc]
    refine yields_nextIs ?_
    rw [if_neg (by simpa [nextKind] using kind_ne_of_reads read rfl)]
    exact (value ⟨t, ⟨o, read, rfl⟩, rfl⟩ _).bind fun a isA =>
      (yields_mark isComma _ _).bind fun _ _ => (block isTrue _).bind fun _ isB =>
        (yields_mark isComma' _ _).bind fun _ _ => (block isFalse _).bind fun _ isC =>
          yields_pure (by cases isB; cases isC; simp only [Instruction.map, isA, id])
  | ret returned =>
    cases returned with
    | none =>
      obtain rfl := (Language.mem_one _).mp mem
      refine Yields.bind ⟨false, rfl, returnsValue_boundary boundary⟩ fun _ given => ?_
      subst given
      exact yields_pure rfl
    | some v =>
      rw [Phrase.tail, Option.toList, Phrase.values_one] at mem
      obtain ⟨t, ⟨o, read, rfl⟩, rfl⟩ := mem
      refine Yields.bind ⟨true, rfl, returnsValue_operand read boundary⟩ fun _ given => ?_
      subst given
      exact (value ⟨t, ⟨o, read, rfl⟩, rfl⟩ _).bind fun a isA =>
        yields_pure (by simp only [Instruction.map, isA, Option.map_some])

end BlockReuse.Source
