import BlockReuse.Source.Grammar
import BlockReuse.Source.Scanner

/-!
# Reading functions — bodies, functions and whole sources

A body is read from its first token to the closing brace. Its labels are collected first, because
a branch may name a block further down. What can be wrong is found in the order of the text, except
that repeated arguments and labels are found before the body is read and uses of names that are
nowhere defined after it.

`body`, `functions` and `Scanner.tokens` are the loops of the front end; each round of the first
two leaves fewer tokens (`shrinks_statement`, `shrinks_function`).
-/

set_option autoImplicit false

namespace BlockReuse.Source

open BlockReuse.Source.Parser

/-- The first token whose text an earlier one has, `seen` being the texts before the list. -/
def firstRepeated? (seen : List String) : List Token → Option Token
  | [] => none
  | t :: rest => if t.text ∈ seen then some t else firstRepeated? (t.text :: seen) rest

/-- The labels of a body: the identifiers in front of a colon, up to the first closing brace. -/
def labelTokens : List Token → List Token
  | a :: b :: rest =>
    if a.kind = .closeBrace then []
    else if a.kind = .identifier ∧ b.kind = .colon then a :: labelTokens (b :: rest)
    else labelTokens (b :: rest)
  | _ => []

/-- Whether the next token is a colon. -/
def colonNext (rest : List Token) : Bool := rest.head?.any fun t => decide (t.kind = .colon)

/-- A body up to its closing brace, `bound` being the names defined so far: the statements in front
of the first label, and the sections. -/
def body (labels bound : List String) (underLabel : Bool) (rest : List Token) :
    Except Failure ((List Statement × List Section) × List Token) :=
  match rest with
  | [] => .error ⟨.expected "`\x7d`", none, []⟩
  | t :: after =>
    if t.kind = .closeBrace then .ok (([], []), after)
    else if t.kind = .identifier ∧ colonNext after then
      match body labels bound true after.tail with
      | .error e => .error e
      | .ok ((statements, sections), final) => .ok (([], ⟨t.text, statements⟩ :: sections), final)
    else
      match _read : statement labels bound underLabel (t :: after) with
      | .error e => .error e
      | .ok (s, after) =>
        match body labels (bound ++ s.resultName.toList) underLabel after with
        | .error e => .error e
        | .ok ((statements, sections), final) => .ok ((s :: statements, sections), final)
termination_by rest.length
decreasing_by
  · simp only [List.length_tail, List.length_cons]
    omega
  · exact (shrinks_statement _ _ _ _read).2

/-- A function. -/
def function : Parser Func := do
  keyword "fn"
  let name ← token .globalName "function name"
  let _ ← token .openParen "`(`"
  let arguments ← parenList (token .localName "argument name")
  let _ ← token .openBrace "`\x7b`"
  match firstRepeated? [] arguments with
  | some t => failAt t (.redefinition t.text)
  | none =>
    let labels := labelTokens (← get)
    match firstRepeated? [] labels with
    | some t => failAt t (.duplicateBlock t.text)
    | none =>
      let names := arguments.map Token.text
      let (_, sections) ← body (labels.map Token.text) names false
      let draft : Draft := ⟨name.text, names, sections⟩
      match draft.undefinedUse? with
      | some t => failAt t (.undefinedValue t.text)
      | none => pure draft.toFunc

theorem body_suffix {labels bound : List String} {underLabel : Bool} {rest after : List Token}
    {r : List Statement × List Section}
    (h : body labels bound underLabel rest = .ok (r, after)) : after <:+ rest := by
  fun_induction body labels bound underLabel rest generalizing r after with
  | case1 => cases h
  | case2 =>
    cases h
    exact List.suffix_cons _ _
  | case3 => cases h
  | case4 bound underLabel t tail _ _ statements sections final hb ih =>
    cases h
    exact ((ih hb).trans (List.tail_suffix tail)).trans (List.suffix_cons _ _)
  | case5 => cases h
  | case6 => cases h
  | case7 bound underLabel t tail _ _ s middle hs statements sections final hb ih =>
    cases h
    exact (ih hb).trans (shrinks_statement _ _ _ hs).1

/-- A function takes at least one token. -/
theorem shrinks_function : Shrinks function := by
  refine (shrinks_keyword _).bind fun _ => (shrinks_token _ _).recedes.bind fun name =>
    (shrinks_token _ _).recedes.bind fun _ =>
      (shrinks_parenList (shrinks_token _ _)).recedes.bind fun arguments =>
        (shrinks_token _ _).recedes.bind fun _ => ?_
  split
  · exact recedes_failAt _ _
  · have state : Recedes (get : Parser (List Token)) := by
      intro rest a after h
      cases h
      exact List.suffix_refl _
    refine state.bind fun rest => ?_
    dsimp only
    split
    · exact recedes_failAt _ _
    · refine Recedes.bind (fun _ _ _ h => body_suffix h) fun r => ?_
      split
      · exact recedes_failAt _ _
      · exact recedes_pure _

/-- Functions up to the end of the tokens. -/
def functions (rest : List Token) : Except Failure (List Func) :=
  match rest with
  | [] => .ok []
  | t :: tail =>
    match _read : function (t :: tail) with
    | .error e => .error e
    | .ok (f, after) =>
      match functions after with
      | .error e => .error e
      | .ok more => .ok (f :: more)
termination_by rest.length
decreasing_by exact (shrinks_function _read).2

/-- The functions a list of tokens writes. -/
def ofTokens (tokens : List Token) : Except (Located ParseError) (List Func) :=
  match functions tokens with
  | .ok fs => .ok fs
  | .error failure => .error (failure.located tokens)

/-- The functions a list of characters writes. -/
def ofChars (source : List Char) : Except (Located ParseError) (List Func) :=
  match tokenize source with
  | .ok tokens => ofTokens tokens
  | .error e => .error (e.map .lexical)

/-- The functions a source writes. -/
def parse (source : String) : Except (Located ParseError) (List Func) := ofChars source.toList

end BlockReuse.Source
