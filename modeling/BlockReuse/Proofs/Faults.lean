import BlockReuse.Proofs.Bodies

/-!
# Faults — which token a parser blames, and for what

A parser that fails names a token, unless the tokens end too early. `Blames` says that this is one
of the tokens it was given, and relates the error to it and to what stands on its two sides. The
parsers of an instruction's parts are followed step by step (`Faults.bind`): what they complain
about is the token at hand and its text (`Complaint`), and a label is unknown to them if the body
does not have it.

On the way to the token at fault no closing brace is passed, so that the token belongs to the body
that is being read. And a body is passed together with the results that it defines, which is why a
result that is defined once more has an earlier definition in front of it (`blames_body`).
-/

set_option autoImplicit false

namespace BlockReuse.Source

open BlockReuse.Source.Parser

variable {α β : Type}

/-! ## Blame -/

/-- No closing brace is among some tokens. -/
def Open (ts : List Token) : Prop := ∀ t ∈ ts, t.kind ≠ .closeBrace

theorem open_nil : Open [] := fun _ mem => absurd mem List.not_mem_nil

theorem open_append {ts us : List Token} : Open (ts ++ us) ↔ Open ts ∧ Open us :=
  List.forall_mem_append

theorem open_cons {t : Token} {ts : List Token} : Open (t :: ts) ↔ t.kind ≠ .closeBrace ∧ Open ts :=
  List.forall_mem_cons

/-- A failure blames a token of those that were given, with no closing brace in front of it, and
`about` relates the tokens in front of it, the token, the tokens behind it and the error. Where the
tokens end too early, no token is blamed. -/
inductive Blames (about : List Token → Token → List Token → ParseError → Prop) (rest : List Token) :
    Failure → Prop where
  | atEnd (what : String) (unread : List Token) : Blames about rest ⟨.expected what, none, unread⟩
  | atToken {passed left unread : List Token} {t : Token} {e : ParseError} (opened : Open passed)
    (whole : rest = passed ++ t :: left) (said : about passed t left e) :
    Blames about rest ⟨e, some t, unread⟩

theorem Blames.behind {about about' : List Token → Token → List Token → ParseError → Prop}
    {ts rest : List Token} (opened : Open ts)
    (mono : ∀ passed t left e, about passed t left e → about' (ts ++ passed) t left e)
    {failure : Failure} (blames : Blames about rest failure) :
    Blames about' (ts ++ rest) failure := by
  cases blames with
  | atEnd what unread => exact .atEnd what unread
  | atToken open' whole said =>
    refine .atToken (open_append.mpr ⟨opened, open'⟩) ?_ (mono _ _ _ _ said)
    rw [whole, List.append_assoc]

theorem bind_eq_error {p : Parser α} {q : α → Parser β} {rest : List Token} {failure : Failure} :
    (p >>= q) rest = .error failure ↔
      p rest = .error failure ∨
        ∃ a middle, p rest = .ok (a, middle) ∧ q a middle = .error failure := by
  cases outcome : p rest with
  | error e => simp [bind, StateT.bind, Except.bind, outcome]
  | ok r =>
    obtain ⟨a, middle⟩ := r
    simp [bind, StateT.bind, Except.bind, outcome]

/-! ## The parts of an instruction -/

/-- What is wrong with a token of an instruction in a body with some labels: it is not what is
expected, or its text is no type, no predicate, no number in range or no label of the body. -/
def Complaint (labels : List String) (t : Token) : ParseError → Prop
  | .expected _ => True
  | .unknownType text | .unknownPredicate text | .numberOutOfRange text => t.text = text
  | .undefinedBlock label => t.text = label ∧ t.kind ≠ .closeBrace ∧ label ∉ labels
  | _ => False

/-- What a parser reads has no closing brace, and where it fails it has a complaint about a
token. -/
structure Faults (labels : List String) (p : Parser α) : Prop where
  reads : ∀ {rest : List Token} {a : α} {after : List Token}, p rest = .ok (a, after) →
    ∃ ts, Open ts ∧ rest = ts ++ after
  fails : ∀ {rest : List Token} {failure : Failure}, p rest = .error failure →
    Blames (fun _ t _ => Complaint labels t) rest failure

section Parts

variable {labels : List String}

theorem Faults.bind {p : Parser α} {q : α → Parser β} (first : Faults labels p)
    (next : ∀ a, Faults labels (q a)) : Faults labels (p >>= q) where
  reads read := by
    obtain ⟨a, middle, readFirst, readNext⟩ := bind_eq_ok.mp read
    obtain ⟨ts, openFirst, rfl⟩ := first.reads readFirst
    obtain ⟨us, openNext, rfl⟩ := (next a).reads readNext
    exact ⟨ts ++ us, open_append.mpr ⟨openFirst, openNext⟩, by rw [List.append_assoc]⟩
  fails failed := by
    rcases bind_eq_error.mp failed with failedFirst | ⟨a, middle, readFirst, failedNext⟩
    · exact first.fails failedFirst
    · obtain ⟨ts, openFirst, rfl⟩ := first.reads readFirst
      exact ((next a).fails failedNext).behind openFirst fun _ _ _ _ said => said

/-- A parser that reads nothing and does not fail. -/
theorem faults_of_looks {p : Parser α} (looks : ∀ rest, ∃ a, p rest = .ok (a, rest)) :
    Faults labels p where
  reads {rest a after} read := by
    obtain ⟨b, found⟩ := looks rest
    rw [found] at read
    cases read
    exact ⟨[], open_nil, rfl⟩
  fails {rest failure} failed := by
    obtain ⟨b, found⟩ := looks rest
    rw [found] at failed
    cases failed

theorem faults_pure (a : α) : Faults labels (pure a : Parser α) := faults_of_looks fun _ => ⟨a, rfl⟩

theorem faults_nextIs (kind : TokenKind) : Faults labels (nextIs kind) :=
  faults_of_looks fun _ => ⟨_, rfl⟩

theorem faults_returnsValue : Faults labels returnsValue := by
  refine faults_of_looks fun rest => ?_
  cases rest <;> exact ⟨_, rfl⟩

theorem faults_failHere (what : String) : Faults labels (failHere (.expected what) : Parser α) where
  reads read := by cases read
  fails {rest failure} failed := by
    cases failed
    cases rest with
    | nil => exact .atEnd what []
    | cons t left => exact .atToken open_nil rfl trivial

/-- A parser that reads one token, which is no closing brace, or complains about it. -/
theorem faults_of_one {p : Parser α} {what : String}
    (atEnd : p [] = .error ⟨.expected what, none, []⟩)
    (one : ∀ t rest, (t.kind ≠ .closeBrace ∧ ∃ a, p (t :: rest) = .ok (a, rest)) ∨
      ∃ e unread, p (t :: rest) = .error ⟨e, some t, unread⟩ ∧ Complaint labels t e) :
    Faults labels p where
  reads {rest a after} read := by
    cases rest with
    | nil =>
      rw [atEnd] at read
      cases read
    | cons t rest =>
      rcases one t rest with ⟨isOpen, b, found⟩ | ⟨e, unread, found, -⟩
      · rw [found] at read
        cases read
        exact ⟨[t], open_cons.mpr ⟨isOpen, open_nil⟩, rfl⟩
      · rw [found] at read
        cases read
  fails {rest failure} failed := by
    cases rest with
    | nil =>
      rw [atEnd] at failed
      cases failed
      exact .atEnd what []
    | cons t rest =>
      rcases one t rest with ⟨-, b, found⟩ | ⟨e, unread, found, complaint⟩
      · rw [found] at failed
        cases failed
      · rw [found] at failed
        cases failed
        exact .atToken open_nil rfl complaint

theorem faults_token {kind : TokenKind} (isOpen : kind ≠ .closeBrace) (what : String) :
    Faults labels (token kind what) := by
  refine faults_of_one rfl fun t rest => ?_
  by_cases class_ : t.kind = kind
  · exact .inl ⟨class_ ▸ isOpen, t, by simp [token, class_]⟩
  · exact .inr ⟨.expected what, t :: rest, by simp [token, class_], trivial⟩

theorem Token.kind_of_isWord {t : Token} {word : String} (is : t.isWord word = true) :
    t.kind = .identifier := by
  simp only [isWord, Bool.and_eq_true, decide_eq_true_eq] at is
  exact is.1

theorem faults_keyword (word : String) : Faults labels (keyword word) := by
  refine faults_of_one rfl fun t rest => ?_
  cases is : t.isWord word with
  | true => exact .inl ⟨by simp [Token.kind_of_isWord is], (), by simp [keyword, is]⟩
  | false => exact .inr ⟨.expected word, t :: rest, by simp [keyword, is], trivial⟩

theorem faults_operand : Faults labels operand := by
  refine faults_of_one rfl fun t rest => ?_
  cases read : Operand.ofToken t with
  | ok o => exact .inl ⟨kind_ne_of_reads read rfl, o, by simp [operand, read]⟩
  | error e =>
    refine .inr ⟨e, t :: rest, by simp [operand, read], ?_⟩
    unfold Operand.ofToken at read
    split at read
    · cases read
    · cases read
    · split at read <;> cases read
      rfl
    · cases read
      trivial

/-- Reading a token of a class and then answering by what it is or complaining about it. -/
theorem faults_token_bind {kind : TokenKind} {what : String} {answer : Token → Parser α}
    (isOpen : kind ≠ .closeBrace)
    (answers : ∀ t, t.kind = kind →
      (∃ a, answer t = pure a) ∨ ∃ e, answer t = failAt t e ∧ Complaint labels t e) :
    Faults labels (token kind what >>= answer) := by
  refine faults_of_one rfl fun t rest => ?_
  have behindToken (class_ : t.kind = kind) :
      (token kind what >>= answer) (t :: rest) = answer t rest := by
    simp [bind, StateT.bind, Except.bind, token, class_]
  by_cases class_ : t.kind = kind
  · rcases answers t class_ with ⟨a, found⟩ | ⟨e, found, complaint⟩
    · exact .inl ⟨class_ ▸ isOpen, a, by rw [behindToken class_, found]; rfl⟩
    · exact .inr ⟨e, rest, by rw [behindToken class_, found]; rfl, complaint⟩
  · exact .inr ⟨.expected what, t :: rest, by simp [bind, StateT.bind, Except.bind, token, class_],
      trivial⟩

theorem faults_typeName : Faults labels typeName := by
  refine faults_token_bind (by decide) fun t _ => ?_
  cases IrType.ofText? t.text with
  | some type => exact .inl ⟨type, rfl⟩
  | none => exact .inr ⟨_, rfl, rfl⟩

theorem faults_blockRef : Faults labels (blockRef labels) := by
  refine faults_token_bind (by decide) fun t class_ => ?_
  by_cases known : t.text ∈ labels
  · exact .inl ⟨_, if_pos known⟩
  · exact .inr ⟨_, if_neg known, rfl, by simp [class_], known⟩

theorem faults_predicate (find : String → Option α) : Faults labels (predicate find) := by
  refine faults_token_bind (by decide) fun t _ => ?_
  cases find t.text with
  | some p => exact .inl ⟨p, rfl⟩
  | none => exact .inr ⟨_, rfl, rfl⟩

theorem faults_pathStep : Faults labels pathStep := by
  refine faults_token_bind (by decide) fun t _ => ?_
  cases Text.decimalBelow? 0x100000000 t.text.toList with
  | some n => exact .inl ⟨_, rfl⟩
  | none => exact .inr ⟨_, rfl, rfl⟩

theorem faults_optionalKeyword (word : String) : Faults labels (optionalKeyword word) where
  reads {rest a after} read := by
    unfold optionalKeyword at read
    split at read
    · cases read
      exact ⟨[], open_nil, rfl⟩
    · next t tail =>
      split at read <;> cases read
      · next is => exact ⟨[t], open_cons.mpr ⟨by simp [Token.kind_of_isWord is], open_nil⟩, rfl⟩
      · exact ⟨[], open_nil, rfl⟩
  fails {rest failure} failed := by
    unfold optionalKeyword at failed
    split at failed
    · cases failed
    · split at failed <;> cases failed

theorem faults_afterCommas {item : Parser α} (each : Faults labels item) :
    Faults labels (afterCommas item) := by
  have within (limit : Nat) : Faults labels (afterCommasWithin item limit) := by
    induction limit with
    | zero => exact faults_pure _
    | succ limit ih =>
      refine (faults_nextIs _).bind fun comes => ?_
      split
      · exact (faults_token (by decide) _).bind fun _ => each.bind fun _ => ih.bind fun _ =>
          faults_pure _
      · exact faults_pure _
  exact ⟨fun {rest} => (within rest.length).reads, fun {rest} => (within rest.length).fails⟩

theorem faults_parenList {item : Parser α} (each : Faults labels item) :
    Faults labels (parenList item) := by
  have close : Faults labels (token .closeParen "`,`") := faults_token (by decide) _
  refine (faults_nextIs _).bind fun closes => ?_
  split
  · exact close.bind fun _ => faults_pure _
  · exact each.bind fun _ => (faults_afterCommas each).bind fun _ => close.bind fun _ =>
      faults_pure _

theorem faults_operands2 : Faults labels operands2 :=
  faults_operand.bind fun _ => (faults_token (by decide) _).bind fun _ =>
    faults_operand.bind fun _ => faults_pure _

theorem faults_operands3 : Faults labels operands3 :=
  faults_operand.bind fun _ => (faults_token (by decide) _).bind fun _ =>
    faults_operand.bind fun _ => (faults_token (by decide) _).bind fun _ =>
      faults_operand.bind fun _ => faults_pure _

theorem faults_path : Faults labels path := by
  refine (faults_afterCommas faults_pathStep).bind fun steps => ?_
  split
  · exact faults_failHere _
  · exact faults_pure _

theorem faults_incoming : Faults labels (incoming labels) :=
  (faults_token (by decide) _).bind fun _ => faults_blockRef.bind fun _ =>
    (faults_token (by decide) _).bind fun _ => faults_operand.bind fun _ =>
      (faults_token (by decide) _).bind fun _ => faults_pure _

theorem faults_callEffects : Faults labels callEffects := by
  refine (faults_optionalKeyword _).bind fun _ => ?_
  split
  · exact faults_pure _
  · refine (faults_optionalKeyword _).bind fun _ => ?_
    split <;> exact faults_pure _

/-- An instruction complains about one of its tokens. -/
theorem faults_instruction (m : Mnemonic) : Faults labels (instruction labels m) := by
  have value : Faults labels operand := faults_operand
  have type : Faults labels typeName := faults_typeName
  have two : Faults labels operands2 := faults_operands2
  have three : Faults labels operands3 := faults_operands3
  have block : Faults labels (blockRef labels) := faults_blockRef
  have sep : Faults labels comma := faults_token (by decide) _
  cases m with
  | binary op => exact two.bind fun _ => faults_pure _
  | cast op =>
    exact value.bind fun _ => (faults_keyword _).bind fun _ => type.bind fun _ => faults_pure _
  | icmp => exact (faults_predicate _).bind fun _ => two.bind fun _ => faults_pure _
  | fcmp => exact (faults_predicate _).bind fun _ => two.bind fun _ => faults_pure _
  | extractElement => exact two.bind fun _ => faults_pure _
  | insertElement => exact three.bind fun _ => faults_pure _
  | shuffleVector => exact three.bind fun _ => faults_pure _
  | gep =>
    exact type.bind fun _ => value.bind fun _ => (faults_afterCommas value).bind fun _ =>
      faults_pure _
  | extractValue => exact value.bind fun _ => faults_path.bind fun _ => faults_pure _
  | insertValue => exact two.bind fun _ => faults_path.bind fun _ => faults_pure _
  | phi =>
    exact faults_incoming.bind fun _ => (faults_afterCommas faults_incoming).bind fun _ =>
      faults_pure _
  | select => exact three.bind fun _ => faults_pure _
  | load =>
    exact (faults_optionalKeyword _).bind fun _ => type.bind fun _ => sep.bind fun _ =>
      value.bind fun _ => faults_pure _
  | store =>
    exact (faults_optionalKeyword _).bind fun _ => type.bind fun _ => two.bind fun _ =>
      faults_pure _
  | alloca => exact type.bind fun _ => faults_pure _
  | call =>
    exact faults_callEffects.bind fun _ => value.bind fun _ =>
      (faults_token (by decide) _).bind fun _ => (faults_parenList value).bind fun _ =>
        faults_pure _
  | fence => exact faults_pure _
  | br =>
    refine (faults_nextIs _).bind fun named => ?_
    split
    · exact block.bind fun _ => faults_pure _
    · exact value.bind fun _ => sep.bind fun _ => block.bind fun _ => sep.bind fun _ =>
        block.bind fun _ => faults_pure _
  | ret =>
    refine faults_returnsValue.bind fun given => ?_
    split
    · exact value.bind fun _ => faults_pure _
    · exact faults_pure _

end Parts

/-! ## Marked tokens -/

/-- The tokens of a class with a token of another class right behind them. -/
def marked (kind mark : TokenKind) : List Token → List Token
  | a :: b :: rest =>
    if a.kind = kind ∧ b.kind = mark then a :: marked kind mark (b :: rest)
    else marked kind mark (b :: rest)
  | _ => []

/-- The results that some tokens of a body define: the local names in front of an equals sign. -/
def resultsIn (ts : List Token) : List Token := marked .localName .equals ts

section Marked

variable {kind mark : TokenKind}

theorem marked_pair {a b : Token} (class_ : a.kind = kind) (isMarked : b.kind = mark)
    (rest : List Token) :
    marked kind mark (a :: b :: rest) = a :: marked kind mark (b :: rest) := by
  rw [marked, if_pos ⟨class_, isMarked⟩]

theorem marked_cons_sublist (a : Token) (rest : List Token) :
    (marked kind mark rest).Sublist (marked kind mark (a :: rest)) := by
  cases rest with
  | nil => exact List.Sublist.refl _
  | cons b rest =>
    rw [marked.eq_1]
    split
    · exact List.sublist_cons_self _ _
    · exact List.Sublist.refl _

theorem marked_sublist (ts : List Token) : (marked kind mark ts).Sublist ts := by
  fun_induction marked kind mark ts with
  | case1 a b rest isMarked ih => exact ih.cons_cons a
  | case2 a b rest unmarked ih => exact ih.cons a
  | case3 ts short => exact List.nil_sublist ts

/-- What is marked within a part is marked in the whole. -/
theorem marked_append_sublist (ts us : List Token) :
    (marked kind mark ts ++ marked kind mark us).Sublist (marked kind mark (ts ++ us)) := by
  fun_induction marked kind mark ts with
  | case1 a b rest isMarked ih =>
    simp only [List.cons_append] at ih ⊢
    rw [marked_pair isMarked.1 isMarked.2]
    exact ih.cons_cons a
  | case2 a b rest unmarked ih => exact ih.trans (marked_cons_sublist a _)
  | case3 ts short =>
    rcases ts with _ | ⟨t, _ | ⟨b, rest⟩⟩
    · exact List.Sublist.refl _
    · exact marked_cons_sublist t us
    · exact absurd rfl (short t b rest)

end Marked

/-! ## Statements and bodies -/

/-- What is wrong with a token of a body, with some tokens of the body in front of it and others
behind it. A redefined name is that of a result, and it is bound before the body or in front of the
token. -/
def BodyComplaint (labels bound : List String) (passed : List Token) (t : Token)
    (left : List Token) : ParseError → Prop
  | .redefinition name =>
    t.text = name ∧ t.kind = .localName ∧ nextKind left = some .equals ∧
      name ∈ bound ++ (resultsIn passed).map Token.text
  | .unknownInstruction text | .missingResult text | .unexpectedResult text => t.text = text
  | .instructionOutsideBlock => True
  | e => Complaint labels t e

section Bodies

variable {labels bound : List String} {underLabel : Bool} {rest : List Token}

/-- The name of a result is read together with its equals sign. -/
theorem optionalResult_reads {result : Option Token} {after : List Token}
    (read : optionalResult rest = .ok (result, after)) :
    ∃ front, Open front ∧ rest = front ++ after ∧
      ∀ t ∈ result, t.kind = .localName ∧ ∃ e, e.kind = .equals ∧ front = [t, e] := by
  unfold optionalResult at read
  split at read
  · next t e tail =>
    split at read <;> cases read
    · next named =>
      refine ⟨[t, e], ?_, rfl, ?_⟩
      · simp [open_cons, open_nil, named]
      · rintro _ ⟨⟩
        exact ⟨named.1, e, named.2, rfl⟩
    · exact ⟨[], open_nil, rfl, by simp⟩
  · cases read
    exact ⟨[], open_nil, rfl, by simp⟩

/-- What is wrong with a statement as a whole is its mnemonic, which asks for a result or admits
none, or the name of its result. -/
theorem Statement.fault?_eq_some {s : Statement} {t : Token} {e : ParseError}
    (fault : s.fault? bound = some (t, e)) :
    (t = s.mnemonic ∧ (e = .missingResult t.text ∨ e = .unexpectedResult t.text)) ∨
      (s.result = some t ∧ e = .redefinition t.text ∧ t.text ∈ bound) := by
  unfold Statement.fault? at fault
  split at fault
  · split at fault <;> cases fault
    exact .inl ⟨rfl, .inl rfl⟩
  next result isResult =>
  split at fault
  · cases fault
    exact .inl ⟨rfl, .inr rfl⟩
  split at fault <;> cases fault
  next known => exact .inr ⟨isResult, rfl, known⟩

theorem statement_reads {s : Statement} {after : List Token}
    (read : statement labels bound underLabel rest = .ok (s, after)) :
    ∃ ts, Open ts ∧ rest = ts ++ after ∧
      ∀ name ∈ s.resultName, name ∈ (resultsIn ts).map Token.text := by
  obtain ⟨result, behindResult, readResult, readRest⟩ := bind_eq_ok.mp read
  obtain ⟨word, behindWord, readWord, readTail⟩ := bind_eq_ok.mp readRest
  clear read readRest
  obtain ⟨front, openFront, rfl, ofResult⟩ := optionalResult_reads readResult
  obtain ⟨isWord, rfl⟩ := token_eq_ok.mp readWord
  split at readTail
  · exact absurd readTail not_failAt_ok
  cases found : Mnemonic.ofText? word.text with
  | none =>
    rw [found] at readTail
    exact absurd readTail not_failAt_ok
  | some m =>
  rw [found] at readTail
  obtain ⟨x, behind, readInstruction, readFinal⟩ := bind_eq_ok.mp readTail
  obtain ⟨ts, openInstruction, rfl⟩ := (faults_instruction m).reads readInstruction
  cases fault : Statement.fault? ⟨result, word, x⟩ bound with
  | some _ =>
    rw [fault] at readFinal
    exact absurd readFinal not_failAt_ok
  | none =>
  rw [fault] at readFinal
  cases readFinal
  refine ⟨front ++ word :: ts, ?_, by simp, ?_⟩
  · exact open_append.mpr ⟨openFront, open_cons.mpr ⟨by simp [isWord], openInstruction⟩⟩
  · intro name isName
    obtain ⟨t, isResult, rfl⟩ := Option.mem_map.mp isName
    obtain ⟨class_, e, isEquals, rfl⟩ := ofResult t isResult
    have first : t ∈ resultsIn ([t, e] ++ word :: ts) := by
      rw [resultsIn, List.cons_append, List.singleton_append, marked_pair class_ isEquals]
      exact List.mem_cons_self
    exact List.mem_map_of_mem first

theorem bodyComplaint_of_complaint {passed left : List Token} {t : Token} {e : ParseError}
    (complaint : Complaint labels t e) : BodyComplaint labels bound passed t left e := by
  cases e with
  | redefinition | unknownInstruction | missingResult | unexpectedResult
  | instructionOutsideBlock =>
    exact complaint.elim
  | _ => exact complaint

/-- What is bound when a part of a body is read is bound before the body or defined in front of the
part. -/
theorem BodyComplaint.behind {bound' : List String} {ts passed left : List Token} {t : Token}
    {e : ParseError} (binds : ∀ name ∈ bound', name ∈ bound ++ (resultsIn ts).map Token.text)
    (complaint : BodyComplaint labels bound' passed t left e) :
    BodyComplaint labels bound (ts ++ passed) t left e := by
  cases e with
  | redefinition name =>
    obtain ⟨same, class_, next, known⟩ := complaint
    refine ⟨same, class_, next, ?_⟩
    have parts : (resultsIn ts ++ resultsIn passed).Sublist (resultsIn (ts ++ passed)) :=
      marked_append_sublist ts passed
    have whole := (parts.map Token.text).subset
    rw [List.map_append] at whole
    rcases List.mem_append.mp known with isBound | isResult
    · rcases List.mem_append.mp (binds name isBound) with isBound | isResult
      · exact List.mem_append_left _ isBound
      · exact List.mem_append_right _ (whole (List.mem_append_left _ isResult))
    · exact List.mem_append_right _ (whole (List.mem_append_right _ isResult))
  | _ => exact complaint

/-- A statement blames one of its tokens. -/
theorem blames_statement {failure : Failure}
    (failed : statement labels bound underLabel rest = .error failure) :
    Blames (BodyComplaint labels bound) rest failure := by
  rcases bind_eq_error.mp failed with failedResult | ⟨result, behindResult, readResult, failedRest⟩
  · exfalso
    unfold optionalResult at failedResult
    split at failedResult
    · split at failedResult <;> cases failedResult
    · cases failedResult
  clear failed
  obtain ⟨front, openFront, rfl, ofResult⟩ := optionalResult_reads readResult
  rcases bind_eq_error.mp failedRest with failedWord | ⟨word, behindWord, readWord, failedTail⟩
  · have asPart : Faults labels (token .identifier "instruction") := faults_token (by decide) _
    exact (asPart.fails failedWord).behind openFront fun _ _ _ _ => bodyComplaint_of_complaint
  clear failedRest
  obtain ⟨isWord, rfl⟩ := token_eq_ok.mp readWord
  split at failedTail
  · cases failedTail
    exact .atToken openFront rfl trivial
  cases found : Mnemonic.ofText? word.text with
  | none =>
    rw [found] at failedTail
    cases failedTail
    exact .atToken openFront rfl rfl
  | some m =>
  rw [found] at failedTail
  rcases bind_eq_error.mp failedTail with
    failedInstruction | ⟨x, behind, readInstruction, failedFault⟩
  · have openWord : Open (front ++ [word]) := by
      exact open_append.mpr ⟨openFront, open_cons.mpr ⟨by simp [isWord], open_nil⟩⟩
    have blames := (faults_instruction m).fails failedInstruction
    rw [← List.singleton_append, ← List.append_assoc]
    exact blames.behind openWord fun _ _ _ _ => bodyComplaint_of_complaint
  cases fault : Statement.fault? ⟨result, word, x⟩ bound with
  | none =>
    rw [fault] at failedFault
    cases failedFault
  | some blamed =>
    obtain ⟨t, e⟩ := blamed
    rw [fault] at failedFault
    cases failedFault
    rcases Statement.fault?_eq_some fault with ⟨rfl, rfl | rfl⟩ | ⟨isResult, rfl, known⟩
    · exact .atToken openFront rfl rfl
    · exact .atToken openFront rfl rfl
    · obtain ⟨class_, equals, isEquals, rfl⟩ := ofResult t isResult
      refine .atToken open_nil rfl ⟨rfl, class_, ?_, List.mem_append_left _ known⟩
      simp [nextKind, isEquals]

/-- **A body blames one of its tokens.** A result that is defined once more has an earlier
definition in front of it, for the names that are bound when a statement is read are those that are
passed. -/
theorem blames_body {failure : Failure}
    (failed : body labels bound underLabel rest = .error failure) :
    Blames (BodyComplaint labels bound) rest failure := by
  fun_induction body labels bound underLabel rest with
  | case1 =>
    cases failed
    exact .atEnd _ _
  | case2 => cases failed
  | case3 bound underLabel t tail notClosed isLabel e failedInner ih =>
    cases failed
    cases tail with
    | nil => simp [colonNext] at isLabel
    | cons c tail =>
      have isColon : c.kind = .colon := by simpa [colonNext] using isLabel.2
      have opened : Open [t, c] := by simp [open_cons, open_nil, isLabel.1, isColon]
      have blames := (ih failedInner).behind opened fun _ _ _ _ said =>
        said.behind fun name isBound => List.mem_append_left _ isBound
      exact blames
  | case4 => cases failed
  | case5 bound underLabel t tail notClosed notLabel e failedLine =>
    cases failed
    exact blames_statement failedLine
  | case6 bound underLabel t tail notClosed notLabel s middle readLine e failedInner ih =>
    cases failed
    obtain ⟨ts, opened, whole, named⟩ := statement_reads readLine
    rw [whole]
    refine (ih failedInner).behind opened fun _ _ _ _ said => said.behind fun name known => ?_
    rcases List.mem_append.mp known with isBound | isResult
    · exact List.mem_append_left _ isBound
    · exact List.mem_append_right _ (named name (Option.mem_toList.mp isResult))
  | case7 => cases failed

end Bodies

end BlockReuse.Source
