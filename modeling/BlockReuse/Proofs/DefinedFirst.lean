import BlockReuse.Proofs.Renumbering
import BlockReuse.Proofs.RoundTrip

/-!
# Names defined first — a source without uses ahead of definitions settles in one pass

A function is read as a draft before its names are resolved, and whether a name is used ahead of the
statement that defines it can be read off the statements of the draft (`DefinesFirst`). Statements
are numbered in the order they are written in, so in the function of such a draft every result is
used behind the instruction it belongs to (`Draft.straight_toFunc`). A pass over it numbers its
values, and what is numbered has no live duplicate.
-/

set_option autoImplicit false

namespace BlockReuse

namespace Source

open BlockReuse.Source.Parser

/-! ## Sources as drafts -/

/-- A function up to its closing brace, with its names as they are written. -/
def draft : Parser Draft := do
  let (name, arguments) ← functionHead
  let labels := labelTokens (← get)
  let (_, sections) ← body (labels.map Token.text) (arguments.map Token.text) false
  pure ⟨name.text, arguments.map Token.text, sections⟩

/-- Tokens that are read as drafts, one after the other. -/
inductive Drafted : List Token → List Draft → Prop
  | nil : Drafted [] []
  | cons {tokens after : List Token} {d : Draft} {more : List Draft} :
    draft tokens = .ok (d, after) → Drafted after more → Drafted tokens (d :: more)

/-- What is read as a function is read as a draft of it, whose names are all defined. -/
theorem exists_draft {tokens after : List Token} {f : Func}
    (read : function tokens = .ok (f, after)) :
    ∃ d, draft tokens = .ok (d, after) ∧ d.undefinedUse? = none ∧ d.toFunc = f := by
  obtain ⟨name, arguments, inner, statements, sections, readHead, -, -, readBody, defined, same⟩ :=
    function_eq_ok.mp read
  refine ⟨_, ?_, defined, same⟩
  exact bind_eq_ok.mpr ⟨_, _, readHead, bind_eq_ok.mpr ⟨inner, inner, rfl,
    bind_eq_ok.mpr ⟨_, _, readBody, rfl⟩⟩⟩

theorem exists_drafted {tokens : List Token} {fs : List Func}
    (read : functions tokens = .ok fs) :
    ∃ ds, Drafted tokens ds ∧ (∀ d ∈ ds, d.undefinedUse? = none) ∧ ds.map Draft.toFunc = fs := by
  fun_induction functions tokens generalizing fs with
  | case1 =>
    cases read
    exact ⟨[], .nil, by simp, rfl⟩
  | case2 => cases read
  | case3 => cases read
  | case4 t tail f after readFirst more readMore ih =>
    cases read
    obtain ⟨d, drafted, defined, rfl⟩ := exists_draft readFirst
    obtain ⟨ds, draftedMore, definedMore, rfl⟩ := ih readMore
    exact ⟨d :: ds, .cons drafted draftedMore, List.forall_mem_cons.mpr ⟨defined, definedMore⟩, rfl⟩

/-- Tokens are read as drafts in one way. -/
theorem Drafted.unique {tokens : List Token} {ds es : List Draft} (first : Drafted tokens ds)
    (second : Drafted tokens es) : ds = es := by
  induction first generalizing es with
  | nil =>
    cases second with
    | nil => rfl
    | cons read _ => cases read
  | cons read _ ih =>
    cases second with
    | nil => cases read
    | cons read' more =>
      rw [read] at read'
      cases read'
      rw [ih more]

/-! ## Names that are defined first -/

/-- No statement uses a name that it or a later one defines. -/
def DefinesFirst : List Statement → Prop
  | [] => True
  | s :: rest =>
    (∀ o ∈ s.instruction.operands, ∀ t ∈ o.localToken?,
      some t.text ∉ (s :: rest).map Statement.resultName) ∧ DefinesFirst rest

instance DefinesFirst.decidable :
    (statements : List Statement) → Decidable (DefinesFirst statements)
  | [] => .isTrue trivial
  | _ :: rest => @instDecidableAnd _ _ _ (DefinesFirst.decidable rest)

/-- In a source, no local name is used before the end of the statement that defines it. -/
def SourceDefinesFirst (source : String) : Prop :=
  ∃ tokens ds, tokenize source.toList = .ok tokens ∧ Drafted tokens ds ∧
    ∀ d ∈ ds, DefinesFirst d.statements

/-- A statement that uses a name stands behind the one that defines it. -/
theorem DefinesFirst.lt {statements : List Statement} (first : DefinesFirst statements)
    {i j : Nat} {user definer : Statement} {t : Token} (userAt : statements[i]? = some user)
    (definerAt : statements[j]? = some definer)
    (uses : .localName t ∈ user.instruction.operands)
    (defines : definer.resultName = some t.text) : j < i := by
  induction statements generalizing i j with
  | nil => simp at userAt
  | cons s rest ih =>
    obtain ⟨here, later⟩ := first
    cases i with
    | zero =>
      obtain rfl : s = user := by simpa using userAt
      have mem : definer ∈ s :: rest := List.mem_of_getElem? definerAt
      exact absurd (List.mem_map.mpr ⟨definer, mem, defines⟩) (here _ uses t rfl)
    | succ i =>
      cases j with
      | zero => exact Nat.succ_pos i
      | succ j =>
        exact Nat.succ_lt_succ (ih later (by simpa using userAt) (by simpa using definerAt))

/-- An operand that stands for a result is the name that the statement of this result defines. -/
theorem Draft.exists_definer {d : Draft} (defined : d.undefinedUse? = none) {o : Operand}
    (mem : o ∈ d.operands) {k : Nat} (stands : d.scope.value o = .inst k) :
    ∃ t definer, o = .localName t ∧ d.statements[k]? = some definer ∧
      definer.resultName = some t.text := by
  cases o with
  | localName t =>
    have known := undefinedUse?_eq_none.mp defined t mem
    by_cases argument : t.text ∈ d.arguments
    · simp [Scope.value, scope, argument] at stands
    · have result : some t.text ∈ d.resultNames := by
        simpa [Scope.defines, scope, argument] using known
      have place : d.resultNames.idxOf (some t.text) = k := by
        simpa [Scope.value, scope, argument] using stands
      have found := getElem?_idxOf result
      rw [place, resultNames, List.getElem?_map] at found
      obtain ⟨definer, definerAt, defines⟩ := Option.map_eq_some_iff.mp found
      exact ⟨t, definer, rfl, definerAt, defines⟩
  | globalName name => cases stands
  | constant value => cases stands

/-- The function of a draft that defines its names first uses earlier results only. -/
theorem Draft.straight_toFunc {d : Draft} (defined : d.undefinedUse? = none)
    (first : DefinesFirst d.statements) : d.toFunc.Straight where
  inOrder := by
    rw [d.inOrder_toFunc, Func.instructions, List.length_map]
  earlier := by
    intro i x found k mem
    rw [Func.instruction?, toFunc, List.getElem?_map, Option.map_map] at found
    obtain ⟨user, userAt, rfl⟩ := Option.map_eq_some_iff.mp found
    have operands : (user.instruction.map d.scope.value).operands =
        user.instruction.operands.map d.scope.value := Instruction.operands_map _ _
    obtain ⟨o, uses, stands⟩ := List.mem_map.mp (operands ▸ mem)
    have written : o ∈ d.operands := List.mem_flatMap.mpr
      ⟨user, List.mem_of_getElem? userAt, user.instruction.written_perm.mem_iff.mpr uses⟩
    obtain ⟨t, definer, rfl, definerAt, defines⟩ := exists_definer defined written stands
    exact first.lt userAt definerAt uses defines

end Source

/-! ## One pass -/

/-- After a pass over a function that uses earlier results only, a second one has nothing to do. -/
theorem Func.Straight.second_reuse {f : Func} (straight : f.Straight) (oracle : Oracle) :
    (reuse oracle (reuse oracle f).func).modified = false ∧
      (reuse oracle (reuse oracle f).func).func = (reuse oracle f).func := by
  have unmodified : (reuse oracle (reuse oracle f).func).modified = false := by
    rw [modified_reuse_eq_false_iff, straight.func_reuse]
    exact straight.not_hasLiveDuplicate oracle
  exact ⟨unmodified, func_reuse_of_modified_eq_false unmodified⟩

open Source in
/-- The functions of a source that defines its names before it uses them are settled by one pass:
a second pass with the same oracle reports no change and makes none. -/
theorem second_reuse_of_definesFirst {source : String} {fs : List Func}
    (parsed : parse source = .ok fs) (first : SourceDefinesFirst source) {f : Func} (mem : f ∈ fs)
    (oracle : Oracle) :
    (reuse oracle (reuse oracle f).func).modified = false ∧
      (reuse oracle (reuse oracle f).func).func = (reuse oracle f).func := by
  obtain ⟨tokens, tokenized, read⟩ := parse_eq_ok.mp parsed
  obtain ⟨ds, drafted, defined, rfl⟩ := exists_drafted read
  obtain ⟨tokens', es, tokenized', drafted', first⟩ := first
  obtain rfl := Except.ok.inj (tokenized.symm.trans tokenized')
  obtain rfl := drafted.unique drafted'
  obtain ⟨d, isDraft, rfl⟩ := List.mem_map.mp mem
  exact (Draft.straight_toFunc (defined d isDraft) (first d isDraft)).second_reuse oracle

/-- Products that are equal once the sums they are made of are merged. -/
def equalProductsText : String :=
  "fn @f(%a) \x7b in: %x = add %a, 1 %y = add %a, 1 %u = mul %x, 2 %v = mul %y, 2 br out " ++
  "out: %r = sub %u, %v ret %r \x7d"

/-- The function that `equalProductsText` describes. -/
def equalProducts : Func where
  name := "f"
  arguments := ["a"]
  globals := []
  definitions :=
    [⟨.binary .add (.argument 0) (.const 1), some "x"⟩,
      ⟨.binary .add (.argument 0) (.const 1), some "y"⟩,
      ⟨.binary .mul (.inst 0) (.const 2), some "u"⟩, ⟨.binary .mul (.inst 1) (.const 2), some "v"⟩,
      ⟨.branch 1, none⟩, ⟨.binary .sub (.inst 2) (.inst 3), some "r"⟩,
      ⟨.ret (some (.inst 5)), none⟩]
  blocks := [⟨"in", [0, 1, 2, 3, 4]⟩, ⟨"out", [5, 6]⟩]
  placed := by decide

open Source in
theorem second_reuse_equalProducts :
    parse equalProductsText = .ok [equalProducts] ∧ SourceDefinesFirst equalProductsText ∧
      (reuse .conservative equalProducts).modified = true ∧
      (reuse .conservative (reuse .conservative equalProducts).func).modified = false ∧
      (reuse .conservative (reuse .conservative equalProducts).func).func =
        (reuse .conservative equalProducts).func := by
  have read : ((tokenize equalProductsText.toList).toOption.any fun tokens =>
      decide ((functions tokens).toOption = some [equalProducts]) &&
        (draft tokens).toOption.any fun r =>
          decide (DefinesFirst r.1.statements) && decide (r.2 = [])) = true := by decide +kernel
  obtain ⟨tokens, tokenized, asTokens⟩ := (Option.any_eq_true _ _).mp read
  obtain ⟨asFunctions, asDraft⟩ := Bool.and_eq_true_iff.mp asTokens
  obtain ⟨⟨d, after⟩, drafted, asFirst⟩ := (Option.any_eq_true _ _).mp asDraft
  obtain ⟨defined, finished⟩ := Bool.and_eq_true_iff.mp asFirst
  obtain rfl : after = [] := of_decide_eq_true finished
  have tokenized := eq_ok_of_toOption tokenized
  have parsed : parse equalProductsText = .ok [equalProducts] :=
    parse_eq_ok.mpr ⟨tokens, tokenized, eq_ok_of_toOption (of_decide_eq_true asFunctions)⟩
  have first : SourceDefinesFirst equalProductsText :=
    ⟨tokens, [d], tokenized, .cons (eq_ok_of_toOption drafted) .nil,
      List.forall_mem_singleton.mpr (of_decide_eq_true defined)⟩
  exact ⟨parsed, first, by decide +kernel,
    second_reuse_of_definesFirst parsed first (List.mem_singleton_self _) .conservative⟩

end BlockReuse
