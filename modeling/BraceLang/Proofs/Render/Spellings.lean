import BraceLang.Proofs.Scan.Scans
import BraceLang.Proofs.Syntax.Standard
import BraceLang.Proofs.Tree.Nodes
import BraceLang.Tree.Render

/-!
# The tokens of the text of a tree

The text of a tree is a row of tokens with blanks between some of them.
`Expr.spellings` and the functions beside it list these tokens, by their kinds and
texts.  They follow the text of the tree and not the source that it was read from:
there is a parenthesis around each operator, and no other one but those of calls and
functions.

The text of a tree that was put together by hand need not scan at all.  What is
needed of its nodes is `spelt`: each token belongs to its node, and has a text that
goes with its kind.
-/

namespace BraceLang

/-! ## Kinds with one text -/

/-- The only text of the tokens of a kind, if there is only one. -/
def TokenKind.text? (kind : TokenKind) : Option String :=
  ((TokenKind.reservedWords.find? (·.2 = kind)).map Prod.fst).or
    (LexemeClass.table.findSome? fun
      | .fixed kind' text => if kind' = kind then some text else none
      | _ => none)

theorem spelled_reserved {word : String} {kind : TokenKind}
    (h : (word, kind) ∈ TokenKind.reservedWords) : Spelled kind word := by
  cases kind <;> simp [TokenKind.reservedWords] at h
  all_goals
    subst h
    exact .word rfl rfl rfl (List.all_eq_true.1 rfl)

theorem text?_of_reserved {word : String} {kind : TokenKind}
    (h : (word, kind) ∈ TokenKind.reservedWords) : kind.text? = some word := by
  cases kind <;> simp [TokenKind.reservedWords] at h
  all_goals
    subst h
    rfl

theorem text?_of_fixed {kind : TokenKind} {text : String}
    (h : .fixed kind text ∈ LexemeClass.table) : kind.text? = some text := by
  cases kind <;> simp [LexemeClass.table] at h
  all_goals
    subst h
    rfl

theorem spelled_of_text? {kind : TokenKind} {text : String} (h : kind.text? = some text) :
    Spelled kind text := by
  rcases Option.or_eq_some_iff.1 h with hreserved | ⟨_, hfixed⟩
  · obtain ⟨⟨word, kind'⟩, hfind, rfl⟩ := Option.map_eq_some_iff.1 hreserved
    have hkind : kind' = kind := by simpa using List.find?_some hfind
    subst hkind
    exact spelled_reserved (List.mem_of_find?_eq_some hfind)
  · obtain ⟨cls, hcls, htext⟩ := List.exists_of_findSome?_eq_some hfixed
    split at htext
    · rename_i kind' text'
      split at htext
      · rename_i hkind
        cases htext
        subst hkind
        exact .fixed hcls
      · cases htext
    · cases htext

/-- A kind with one text has no other one. -/
theorem text_eq_of_spelled {kind : TokenKind} {text text' : String} (h : kind.text? = some text)
    (hspelled : Spelled kind text') : text' = text := by
  cases hspelled with
  | word hkind =>
    subst hkind
    rcases TokenKind.ofWord_cases text' with hname | hreserved
    · rw [hname] at h
      cases h
    · exact Option.some.inj ((text?_of_reserved hreserved).symm.trans h)
  | numeral | quoted => cases h
  | fixed hcls => exact Option.some.inj ((text?_of_fixed hcls).symm.trans h)

/-! ## Spellings of a tree -/

/-- The spelling of a truth value. -/
def boolSpelling (value : Bool) : Spelling :=
  if value then (.trueWord, "true") else (.falseWord, "false")

/-- The spelling of a name. -/
def Identifier.spelling (identifier : Identifier) : Spelling :=
  (.identifier, identifier.name)

/-- The spellings of parameters, with commas between them. -/
def Identifier.spellings : List Identifier → List Spelling
  | [] => []
  | [identifier] => [identifier.spelling]
  | identifier :: next :: others =>
    identifier.spelling :: (.comma, ",") :: Identifier.spellings (next :: others)

mutual

/-- The spellings of the tokens in the text of an expression. -/
def Expr.spellings : Expr → List Spelling
  | .ident identifier => [identifier.spelling]
  | .int token _ => [(.integer, token.text)]
  | .str _ value => [(.string, value)]
  | .bool _ value => [boolSpelling value]
  | .unary token operator operand =>
    (.openParen, "(") :: (token.kind, operator) :: (operand.spellings ++ [(.closeParen, ")")])
  | .binary token operator left right =>
    (.openParen, "(") ::
      (left.spellings ++ (token.kind, operator) :: (right.spellings ++ [(.closeParen, ")")]))
  | .cond _ condition consequence none =>
    (.ifWord, "if") :: (condition.spellings ++ consequence.spellings)
  | .cond _ condition consequence (some alternative) =>
    (.ifWord, "if") ::
      (condition.spellings ++
        (consequence.spellings ++ (.elseWord, "else") :: alternative.spellings))
  | .func _ parameters body =>
    (.fnWord, "fn") :: (.openParen, "(") ::
      (Identifier.spellings parameters ++ (.closeParen, ")") :: body.spellings)
  | .call _ callee arguments =>
    callee.spellings ++ (.openParen, "(") ::
      (Expr.spellingsOfArguments arguments ++ [(.closeParen, ")")])

/-- The spellings of arguments, with commas between them. -/
def Expr.spellingsOfArguments : List Expr → List Spelling
  | [] => []
  | expression :: expressions => expression.spellings ++ Expr.spellingsOfMore expressions

/-- The spellings of arguments that each have a comma in front. -/
def Expr.spellingsOfMore : List Expr → List Spelling
  | [] => []
  | expression :: expressions =>
    (.comma, ",") :: (expression.spellings ++ Expr.spellingsOfMore expressions)

/-- The spellings of the tokens in the text of a statement. -/
def Stmt.spellings : Stmt → List Spelling
  | .bind _ name value =>
    (.letWord, "let") :: name.spelling :: (.assignment, "=") ::
      (value.spellings ++ [(.semicolon, ";")])
  | .ret _ none => [(.returnWord, "return"), (.semicolon, ";")]
  | .ret _ (some value) => (.returnWord, "return") :: (value.spellings ++ [(.semicolon, ";")])
  | .expr _ expression => expression.spellings

/-- The spellings of statements, one after the other. -/
def Stmt.spellingsOfEach : List Stmt → List Spelling
  | [] => []
  | statement :: statements => statement.spellings ++ Stmt.spellingsOfEach statements

/-- The spellings of the tokens in the text of a block. -/
def Block.spellings : Block → List Spelling
  | ⟨_, body⟩ =>
    (.openCurly, "\x7b") :: (Stmt.spellingsOfEach body ++ [(.closeCurly, "\x7d")])

end

/-! ## Trees that can be read -/

/-- The token of a name is the name. -/
def Identifier.Spelt (identifier : Identifier) : Prop :=
  identifier.token.spelling = identifier.spelling ∧ Spelled .identifier identifier.name

/-- The token of an expression belongs to it, and is spelled as its kind. -/
def Expr.Spelt : Expr → Prop
  | .ident identifier => identifier.Spelt
  | .int token value =>
    token.kind = .integer ∧ Spelled .integer token.text ∧
      Text.readInt64? token.text = some value
  | .str token value => token.spelling = (.string, value)
  | .bool token value => token.spelling = boolSpelling value
  | .unary token operator _ =>
    (token.kind = .not ∨ token.kind = .dash) ∧ token.text = operator ∧
      Spelled token.kind operator
  | .binary token operator _ _ =>
    (∃ level, token.kind ∈ Syntax.operators level) ∧ token.text = operator ∧
      Spelled token.kind operator
  | .cond token _ _ _ => token.spelling = (.ifWord, "if")
  | .func token parameters _ =>
    token.spelling = (.fnWord, "fn") ∧ ∀ name ∈ parameters, name.Spelt
  | .call token _ _ => token.spelling = (.openParen, "(")

/-- The tokens of a statement belong to it, apart from that of an expression. -/
def Stmt.Spelt : Stmt → Prop
  | .bind token name _ => token.spelling = (.letWord, "let") ∧ name.Spelt
  | .ret token _ => token.spelling = (.returnWord, "return")
  | .expr _ _ => True

/-- Each node has tokens that belong to it and are spelled as their kinds. -/
def spelt : Nodes where
  expr := Expr.Spelt
  stmt := Stmt.Spelt
  block block := block.token.spelling = (.openCurly, "\x7b")

/-- No string holds a character that is written as its code point. -/
def shown : Nodes where
  expr
    | .str _ value => ∀ c ∈ value.toList, Text.isHidden c = false
    | _ => True

/-- No expression follows directly on another one, as statements, whose text begins
with a parenthesis. -/
def Apart (body : List Stmt) : Prop :=
  ∀ before token first token' second after,
    body = before ++ .expr token first :: .expr token' second :: after →
      second.render.toList.head? ≠ some '('

/-- In no block does an expression follow directly on another one whose text begins
with a parenthesis. -/
def apart : Nodes where
  block block := Apart block.body

/-! ## How an expression begins -/

theorem head_of_spelled {kind : TokenKind} {text : String} (h : Spelled kind text)
    (hkind : kind = .identifier ∨ kind = .integer) :
    ∃ c, text.toList.head? = some c ∧ c ≠ '=' := by
  cases h with
  | @word _ _ c cs _ htext hfirst =>
    refine ⟨c, by rw [htext]; rfl, ?_⟩
    intro heq
    subst heq
    cases hfirst
  | @numeral _ c cs htext hfirst =>
    refine ⟨c, by rw [htext]; rfl, ?_⟩
    intro heq
    subst heq
    cases hfirst
  | quoted => simp at hkind
  | fixed hcls => rcases hkind with rfl | rfl <;> simp [LexemeClass.table] at hcls

/-- The first character of an expression and the kind of its first token.  Only a
parenthesis can make the expression before it longer. -/
structure Expr.Begins (expression : Expr) (c : Char) (kind : TokenKind) : Prop where
  char_eq : expression.render.toList.head? = some c
  kind_eq : expression.spellings.head?.map Prod.fst = some kind
  char_ne : c ≠ '='
  eq_openParen : Syntax.Extends kind → c = '('

theorem Expr.exists_begins : ∀ expression : Expr, expression.Everywhere spelt →
    ∃ c kind, expression.Begins c kind
  | .ident identifier, h => by
    obtain ⟨c, htext, hne⟩ := head_of_spelled h.2 (.inl rfl)
    exact ⟨c, .identifier, htext, rfl, hne, fun hextends => absurd hextends (by decide)⟩
  | .int token value, h => by
    obtain ⟨c, htext, hne⟩ := head_of_spelled h.2.1 (.inr rfl)
    exact ⟨c, .integer, htext, rfl, hne, fun hextends => absurd hextends (by decide)⟩
  | .str token value, _ =>
    ⟨'"', .string, by simp [Expr.render, toList_quote], rfl, by decide, by decide⟩
  | .bool token true, _ => ⟨'t', .trueWord, by simp [Expr.render], rfl, by decide, by decide⟩
  | .bool token false, _ => ⟨'f', .falseWord, by simp [Expr.render], rfl, by decide, by decide⟩
  | .unary token operator operand, _ =>
    ⟨'(', .openParen, by simp [Expr.render], rfl, by decide, by decide⟩
  | .binary token operator left right, _ =>
    ⟨'(', .openParen, by simp [Expr.render], rfl, by decide, by decide⟩
  | .cond token condition consequence none, _ =>
    ⟨'i', .ifWord, by simp [Expr.render], rfl, by decide, by decide⟩
  | .cond token condition consequence (some alternative), _ =>
    ⟨'i', .ifWord, by simp [Expr.render], rfl, by decide, by decide⟩
  | .func token parameters body, h => by
    have htext : token.text = "fn" := congrArg Prod.snd h.1.1
    exact ⟨'f', .fnWord, by simp [Expr.render, htext], rfl, by decide, by decide⟩
  | .call token callee arguments, h => by
    obtain ⟨c, kind, hbegins⟩ := callee.exists_begins h.2.1
    refine ⟨c, kind, ?_, ?_, hbegins.char_ne, hbegins.eq_openParen⟩
    · simp [Expr.render, List.head?_append, hbegins.char_eq]
    · rw [Expr.spellings, List.head?_append, Option.map_or, hbegins.kind_eq, Option.some_or]

end BraceLang
