import BraceLang.Proofs.Render.Spellings
import BraceLang.Proofs.Tree.Erasure

/-!
# The spellings of a tree derive the tree

Tokens that have the spellings of a tree derive it again, up to the places in the
source (`Stmt.derives`).  The tree must be spelt, and in none of its blocks may an
expression run on into the next statement (`Apart`).

There is a parenthesis around each operator, so that every expression is one of the
level of calls, and the level of its context does not matter.
-/

namespace BraceLang

open Syntax

variable {ts us : List Token} {spellings : List Spelling} {spelling : Spelling}

/-! ## Tokens with given spellings -/

theorem token_eq_of_spelling {token token' : Token} (h : token.spelling = token'.spelling) :
    Erasure.places.token token = Erasure.places.token token' := by
  obtain ⟨hkind, htext⟩ := Prod.mk.inj h
  simp only [Erasure.places, hkind, htext]

theorem kind_of_spelling {token : Token} {kind : TokenKind} {text : String}
    (h : token.spelling = (kind, text)) : token.kind = kind :=
  congrArg Prod.fst h

/-- A token that is spelled as an operator is this operator. -/
theorem operator_of_spelling {sign token : Token} {operator : String}
    (h : sign.spelling = (token.kind, operator)) (htext : token.text = operator) :
    sign.kind = token.kind ∧ sign.text = operator ∧
      Erasure.places.token sign = Erasure.places.token token := by
  subst htext
  exact ⟨congrArg Prod.fst h, congrArg Prod.snd h, token_eq_of_spelling h⟩

/-- The only token of a row. -/
theorem exists_singleton_of_map (h : ts.map Token.spelling = [spelling]) :
    ∃ token, ts = [token] ∧ token.spelling = spelling := by
  obtain ⟨token, us, rfl, htoken, hus⟩ := List.map_eq_cons_iff.1 h
  obtain rfl := List.map_eq_nil_iff.1 hus
  exact ⟨token, rfl, htoken⟩

/-- The last token of a row. -/
theorem exists_concat_of_map (h : ts.map Token.spelling = spellings ++ [spelling]) :
    ∃ us token, ts = us ++ [token] ∧ us.map Token.spelling = spellings ∧
      token.spelling = spelling := by
  obtain ⟨us, vs, rfl, hus, hvs⟩ := List.map_eq_append_iff.1 h
  obtain ⟨token, rfl, htoken⟩ := exists_singleton_of_map hvs
  exact ⟨us, token, rfl, hus, htoken⟩

theorem firstKind_of_map {follow kind : TokenKind} (h : ts.map Token.spelling = spellings)
    (hkind : spellings.head?.map Prod.fst = some kind) : firstKind ts follow = kind := by
  subst h
  cases ts with
  | nil => cases hkind
  | cons token ts => exact Option.some.inj hkind

/-! ## Names -/

theorem Identifier.erase_eq {identifier : Identifier} {token : Token} (hspelt : identifier.Spelt)
    (h : token.spelling = identifier.spelling) :
    Identifier.erase .places ⟨token, token.text⟩ = identifier.erase .places := by
  have htext : token.text = identifier.name := congrArg Prod.snd h
  rw [Identifier.erase, Identifier.erase, htext, token_eq_of_spelling (h.trans hspelt.1.symm)]

theorem derives_names {parameters : List Identifier} (hspelt : ∀ name ∈ parameters, name.Spelt)
    (hne : parameters ≠ []) (hts : ts.map Token.spelling = Identifier.spellings parameters) :
    ∃ names, Derives .names ts names ∧
      names.map (Identifier.erase .places) = parameters.map (Identifier.erase .places) := by
  fun_induction Identifier.spellings parameters generalizing ts with
  | case1 => exact absurd rfl hne
  | case2 identifier =>
    obtain ⟨token, rfl, htoken⟩ := exists_singleton_of_map hts
    refine ⟨_, .lastName (kind_of_spelling htoken), ?_⟩
    rw [List.map_singleton, List.map_singleton,
      Identifier.erase_eq (hspelt identifier List.mem_cons_self) htoken]
  | case3 identifier next others ih =>
    obtain ⟨token, us, rfl, htoken, hus⟩ := List.map_eq_cons_iff.1 hts
    obtain ⟨comma, vs, rfl, hcomma, hvs⟩ := List.map_eq_cons_iff.1 hus
    obtain ⟨names, hnames, herase⟩ :=
      ih (fun name hname => hspelt name (List.mem_cons_of_mem identifier hname)) (by simp) hvs
    refine ⟨_, .moreNames (kind_of_spelling htoken) (kind_of_spelling hcomma) hnames, ?_⟩
    rw [List.map_cons, herase, List.map_cons (l := next :: others),
      Identifier.erase_eq (hspelt identifier List.mem_cons_self) htoken]

theorem derives_parameters {parameters : List Identifier}
    (hspelt : ∀ name ∈ parameters, name.Spelt)
    (hts : ts.map Token.spelling = Identifier.spellings parameters) :
    ∃ names, Derives .parameters ts names ∧
      names.map (Identifier.erase .places) = parameters.map (Identifier.erase .places) := by
  by_cases hnil : parameters = []
  · subst hnil
    obtain rfl := List.map_eq_nil_iff.1 hts
    exact ⟨[], .noParameters, rfl⟩
  · obtain ⟨names, hnames, herase⟩ := derives_names hspelt hnil hts
    exact ⟨names, .someParameters hnames, herase⟩

/-! ## Statements in a row -/

theorem Apart.tail {statement : Stmt} {statements : List Stmt}
    (h : Apart (statement :: statements)) : Apart statements := by
  intro before token first token' second after heq
  exact h (statement :: before) token first token' second after (by rw [heq, List.cons_append])

/-- No statement that follows an expression makes it longer. -/
theorem not_extends_of_apart {token : Token} {expression : Expr} {statements : List Stmt}
    (hspelt : Stmt.EverywhereEach spelt statements)
    (hapart : Apart (.expr token expression :: statements))
    (hts : ts.map Token.spelling = Stmt.spellingsOfEach statements) :
    ¬ Extends (firstKind ts .closeCurly) := by
  cases statements with
  | nil =>
    obtain rfl := List.map_eq_nil_iff.1 hts
    decide
  | cons second others =>
    cases second with
    | bind token' name value =>
      rw [firstKind_of_map hts (by rw [Stmt.spellingsOfEach, Stmt.spellings]; rfl)]
      decide
    | ret token' value =>
      cases value with
      | none =>
        rw [firstKind_of_map hts (by rw [Stmt.spellingsOfEach, Stmt.spellings]; rfl)]
        decide
      | some value =>
        rw [firstKind_of_map hts (by rw [Stmt.spellingsOfEach, Stmt.spellings]; rfl)]
        decide
    | expr token' second =>
      obtain ⟨c, kind, hbegins⟩ := second.exists_begins hspelt.1.2
      have hkind : firstKind ts .closeCurly = kind := by
        apply firstKind_of_map hts
        rw [Stmt.spellingsOfEach, Stmt.spellings, List.head?_append, Option.map_or,
          hbegins.kind_eq, Option.some_or]
      intro hextends
      rw [hkind] at hextends
      apply hapart [] token expression token' second others rfl
      rw [hbegins.char_eq, hbegins.eq_openParen hextends]

/-! ## Trees -/

mutual

theorem Expr.derives : ∀ expression : Expr, expression.Everywhere spelt →
    expression.Everywhere apart → ∀ {ts}, ts.map Token.spelling = expression.spellings →
    ∃ tree, Derives (.expr 6) ts tree ∧ tree.erase .places = expression.erase .places
  | .ident identifier, hspelt, _, ts, hts => by
    obtain ⟨token, rfl, htoken⟩ := exists_singleton_of_map hts
    refine ⟨_, .tighter (by decide) (.ident (kind_of_spelling htoken)), ?_⟩
    rw [Expr.erase, Expr.erase, Identifier.erase_eq hspelt htoken]
  | .int token value, hspelt, _, ts, hts => by
    obtain ⟨hkind, _, hvalue⟩ := hspelt
    obtain ⟨literal, rfl, hliteral⟩ := exists_singleton_of_map hts
    have hspelling : literal.spelling = token.spelling := by rw [hliteral, ← hkind]; rfl
    have hread : Text.readInt64? literal.text = some value := by
      rw [show literal.text = token.text from congrArg Prod.snd hliteral]
      exact hvalue
    refine ⟨_, .tighter (by decide) (.int (kind_of_spelling hliteral) hread), ?_⟩
    rw [Expr.erase, Expr.erase, token_eq_of_spelling hspelling]
  | .str token value, hspelt, _, ts, hts => by
    obtain ⟨literal, rfl, hliteral⟩ := exists_singleton_of_map hts
    have htext : literal.text = value := congrArg Prod.snd hliteral
    refine ⟨_, .tighter (by decide) (.str (kind_of_spelling hliteral)), ?_⟩
    rw [Expr.erase, Expr.erase, token_eq_of_spelling (hliteral.trans hspelt.symm), htext]
  | .bool token true, hspelt, _, ts, hts => by
    obtain ⟨literal, rfl, hliteral⟩ := exists_singleton_of_map hts
    refine ⟨_, .tighter (by decide) (.true (kind_of_spelling hliteral)), ?_⟩
    rw [Expr.erase, Expr.erase, token_eq_of_spelling (hliteral.trans hspelt.symm)]
  | .bool token false, hspelt, _, ts, hts => by
    obtain ⟨literal, rfl, hliteral⟩ := exists_singleton_of_map hts
    refine ⟨_, .tighter (by decide) (.false (kind_of_spelling hliteral)), ?_⟩
    rw [Expr.erase, Expr.erase, token_eq_of_spelling (hliteral.trans hspelt.symm)]
  | .unary token operator operand, hspelt, hapart, ts, hts => by
    obtain ⟨⟨hkind, htext, _⟩, hoperand⟩ := hspelt
    obtain ⟨paren, us, rfl, hparen, hus⟩ := List.map_eq_cons_iff.1 hts
    obtain ⟨sign, vs, rfl, hsign, hvs⟩ := List.map_eq_cons_iff.1 hus
    obtain ⟨ws, close, rfl, hws, hclose⟩ := exists_concat_of_map hvs
    obtain ⟨tree, htree, herase⟩ := operand.derives hoperand hapart.2 hws
    obtain ⟨hsignKind, hsignText, hsignToken⟩ := operator_of_spelling hsign htext
    have hunary : Derives (.expr 5) (sign :: ws) (.unary sign sign.text tree) :=
      .unary (by rw [hsignKind]; exact hkind) (htree.loosen (by decide) (by decide))
    refine ⟨_, .tighter (by decide) (.group (kind_of_spelling hparen)
      (hunary.loosen (by decide) (by decide)) (kind_of_spelling hclose)), ?_⟩
    rw [Expr.erase, Expr.erase, herase, hsignToken, hsignText]
  | .binary token operator left right, hspelt, hapart, ts, hts => by
    obtain ⟨⟨⟨level, hkind⟩, htext, _⟩, hleft, hright⟩ := hspelt
    obtain ⟨_, hleftApart, hrightApart⟩ := hapart
    obtain ⟨paren, us, rfl, hparen, hus⟩ := List.map_eq_cons_iff.1 hts
    obtain ⟨lefts, vs, rfl, hlefts, hvs⟩ := List.map_eq_append_iff.1 hus
    obtain ⟨sign, ws, rfl, hsign, hws⟩ := List.map_eq_cons_iff.1 hvs
    obtain ⟨rights, close, rfl, hrights, hclose⟩ := exists_concat_of_map hws
    obtain ⟨first, hfirst, hfirstErase⟩ := left.derives hleft hleftApart hlefts
    obtain ⟨second, hsecond, hsecondErase⟩ := right.derives hright hrightApart hrights
    obtain ⟨hsignKind, hsignText, hsignToken⟩ := operator_of_spelling hsign htext
    obtain ⟨hlevel, _⟩ := trailing_of_mem_operators hkind
    have hbinary : Derives (.expr level) (lefts ++ sign :: rights)
        (.binary sign sign.text first second) :=
      .binary (by rw [hsignKind]; exact hkind) (hfirst.loosen (by omega) (by decide))
        (hsecond.loosen (by omega) (by decide))
    have hgroup : Derives (.expr 7) (paren :: ((lefts ++ sign :: rights) ++ [close])) _ :=
      .group (kind_of_spelling hparen) (hbinary.loosen (Nat.zero_le _) (by omega))
        (kind_of_spelling hclose)
    rw [List.append_assoc, List.cons_append] at hgroup
    refine ⟨_, .tighter (by decide) hgroup, ?_⟩
    rw [Expr.erase, Expr.erase, hfirstErase, hsecondErase, hsignToken, hsignText]
  | .cond token condition consequence none, hspelt, hapart, ts, hts => by
    obtain ⟨hword, hcondition, hconsequence⟩ := hspelt
    obtain ⟨_, hconditionApart, hconsequenceApart⟩ := hapart
    obtain ⟨word, us, rfl, hwordSpelling, hus⟩ := List.map_eq_cons_iff.1 hts
    obtain ⟨tests, firsts, rfl, htests, hfirsts⟩ := List.map_eq_append_iff.1 hus
    obtain ⟨test, htest, htestErase⟩ := condition.derives hcondition hconditionApart htests
    obtain ⟨first, hfirst, hfirstErase⟩ :=
      consequence.derives hconsequence hconsequenceApart hfirsts
    refine ⟨_, .tighter (by decide) (.cond (kind_of_spelling hwordSpelling)
      (htest.loosen (by decide) (by decide)) hfirst), ?_⟩
    rw [Expr.erase, Expr.erase, htestErase, hfirstErase,
      token_eq_of_spelling (hwordSpelling.trans hword.symm)]
  | .cond token condition consequence (some alternative), hspelt, hapart, ts, hts => by
    obtain ⟨hword, hcondition, hconsequence, halternative⟩ := hspelt
    obtain ⟨_, hconditionApart, hconsequenceApart, halternativeApart⟩ := hapart
    obtain ⟨word, us, rfl, hwordSpelling, hus⟩ := List.map_eq_cons_iff.1 hts
    obtain ⟨tests, vs, rfl, htests, hvs⟩ := List.map_eq_append_iff.1 hus
    obtain ⟨firsts, ws, rfl, hfirsts, hws⟩ := List.map_eq_append_iff.1 hvs
    obtain ⟨other, seconds, rfl, hother, hseconds⟩ := List.map_eq_cons_iff.1 hws
    obtain ⟨test, htest, htestErase⟩ := condition.derives hcondition hconditionApart htests
    obtain ⟨first, hfirst, hfirstErase⟩ :=
      consequence.derives hconsequence hconsequenceApart hfirsts
    obtain ⟨second, hsecond, hsecondErase⟩ :=
      alternative.derives halternative halternativeApart hseconds
    refine ⟨_, .tighter (by decide) (.condElse (kind_of_spelling hwordSpelling)
      (htest.loosen (by decide) (by decide)) hfirst (kind_of_spelling hother) hsecond), ?_⟩
    rw [Expr.erase, Expr.erase, htestErase, hfirstErase, hsecondErase,
      token_eq_of_spelling (hwordSpelling.trans hword.symm)]
  | .func token parameters body, hspelt, hapart, ts, hts => by
    obtain ⟨⟨hword, hparameters⟩, hbody⟩ := hspelt
    obtain ⟨word, us, rfl, hwordSpelling, hus⟩ := List.map_eq_cons_iff.1 hts
    obtain ⟨paren, vs, rfl, hparen, hvs⟩ := List.map_eq_cons_iff.1 hus
    obtain ⟨listed, ws, rfl, hlisted, hws⟩ := List.map_eq_append_iff.1 hvs
    obtain ⟨close, bodies, rfl, hclose, hbodies⟩ := List.map_eq_cons_iff.1 hws
    obtain ⟨names, hnames, hnamesErase⟩ := derives_parameters hparameters hlisted
    obtain ⟨block, hblock, hblockErase⟩ := body.derives hbody hapart.2 hbodies
    refine ⟨_, .tighter (by decide) (.func (kind_of_spelling hwordSpelling)
      (kind_of_spelling hparen) hnames (kind_of_spelling hclose) hblock), ?_⟩
    rw [Expr.erase, Expr.erase, hnamesErase, hblockErase,
      token_eq_of_spelling (hwordSpelling.trans hword.symm)]
  | .call token callee arguments, hspelt, hapart, ts, hts => by
    obtain ⟨hparenToken, hcallee, harguments⟩ := hspelt
    obtain ⟨_, hcalleeApart, hargumentsApart⟩ := hapart
    obtain ⟨callees, us, rfl, hcallees, hus⟩ := List.map_eq_append_iff.1 hts
    obtain ⟨paren, vs, rfl, hparen, hvs⟩ := List.map_eq_cons_iff.1 hus
    obtain ⟨listed, close, rfl, hlisted, hclose⟩ := exists_concat_of_map hvs
    obtain ⟨called, hcalled, hcalledErase⟩ := callee.derives hcallee hcalleeApart hcallees
    obtain ⟨values, hvalues, hvaluesErase⟩ :=
      Expr.derives_arguments arguments harguments hargumentsApart hlisted
    refine ⟨_, .call hcalled (kind_of_spelling hparen) hvalues (kind_of_spelling hclose), ?_⟩
    rw [Expr.erase, Expr.erase, hcalledErase, hvaluesErase,
      token_eq_of_spelling (hparen.trans hparenToken.symm)]

theorem Expr.derives_arguments : ∀ arguments : List Expr, Expr.EverywhereEach spelt arguments →
    Expr.EverywhereEach apart arguments →
    ∀ {ts}, ts.map Token.spelling = Expr.spellingsOfArguments arguments →
    ∃ trees, Derives .arguments ts trees ∧
      Expr.eraseEach .places trees = Expr.eraseEach .places arguments
  | [], _, _, ts, hts => by
    obtain rfl := List.map_eq_nil_iff.1 hts
    exact ⟨[], .noArguments, rfl⟩
  | expression :: expressions, hspelt, hapart, ts, hts => by
    obtain ⟨us, vs, rfl, hus, hvs⟩ := List.map_eq_append_iff.1 hts
    obtain ⟨first, hfirst, hfirstErase⟩ := expression.derives hspelt.1 hapart.1 hus
    obtain ⟨others, hothers, hothersErase⟩ :=
      Expr.derives_more expressions hspelt.2 hapart.2 hvs
    refine ⟨_, .someArguments (hfirst.loosen (by decide) (by decide)) hothers, ?_⟩
    rw [Expr.eraseEach, Expr.eraseEach, hfirstErase, hothersErase]

theorem Expr.derives_more : ∀ arguments : List Expr, Expr.EverywhereEach spelt arguments →
    Expr.EverywhereEach apart arguments →
    ∀ {ts}, ts.map Token.spelling = Expr.spellingsOfMore arguments →
    ∃ trees, Derives .moreArguments ts trees ∧
      Expr.eraseEach .places trees = Expr.eraseEach .places arguments
  | [], _, _, ts, hts => by
    obtain rfl := List.map_eq_nil_iff.1 hts
    exact ⟨[], .noMoreArguments, rfl⟩
  | expression :: expressions, hspelt, hapart, ts, hts => by
    obtain ⟨comma, ws, rfl, hcomma, hws⟩ := List.map_eq_cons_iff.1 hts
    obtain ⟨us, vs, rfl, hus, hvs⟩ := List.map_eq_append_iff.1 hws
    obtain ⟨first, hfirst, hfirstErase⟩ := expression.derives hspelt.1 hapart.1 hus
    obtain ⟨others, hothers, hothersErase⟩ :=
      Expr.derives_more expressions hspelt.2 hapart.2 hvs
    refine ⟨_, .moreArguments (kind_of_spelling hcomma) (hfirst.loosen (by decide) (by decide))
      hothers, ?_⟩
    rw [Expr.eraseEach, Expr.eraseEach, hfirstErase, hothersErase]

theorem Stmt.derives : ∀ statement : Stmt, statement.Everywhere spelt →
    statement.Everywhere apart → ∀ {follow ts},
    (∀ token expression, statement = .expr token expression → ¬ Extends follow) →
    ts.map Token.spelling = statement.spellings →
    ∃ tree, Derives (.stmt follow) ts tree ∧ tree.erase .places = statement.erase .places
  | .bind token name value, hspelt, hapart, follow, ts, _, hts => by
    obtain ⟨⟨hword, hname⟩, hvalue⟩ := hspelt
    obtain ⟨word, us, rfl, hwordSpelling, hus⟩ := List.map_eq_cons_iff.1 hts
    obtain ⟨named, vs, rfl, hnamed, hvs⟩ := List.map_eq_cons_iff.1 hus
    obtain ⟨sign, ws, rfl, hsign, hws⟩ := List.map_eq_cons_iff.1 hvs
    obtain ⟨values, semicolon, rfl, hvalues, hsemicolon⟩ := exists_concat_of_map hws
    obtain ⟨tree, htree, herase⟩ := value.derives hvalue hapart.2 hvalues
    refine ⟨_, .bind (kind_of_spelling hwordSpelling) (kind_of_spelling hnamed)
      (kind_of_spelling hsign) (htree.loosen (by decide) (by decide))
      (.semicolon semicolon (kind_of_spelling hsemicolon)), ?_⟩
    rw [Stmt.erase, Stmt.erase, herase, Identifier.erase_eq hname hnamed,
      token_eq_of_spelling (hwordSpelling.trans hword.symm)]
  | .ret token none, hspelt, _, follow, ts, _, hts => by
    obtain ⟨word, us, rfl, hwordSpelling, hus⟩ := List.map_eq_cons_iff.1 hts
    obtain ⟨semicolon, rfl, hsemicolon⟩ := exists_singleton_of_map hus
    refine ⟨_, .bareRet (kind_of_spelling hwordSpelling)
      (.semicolon semicolon (kind_of_spelling hsemicolon)), ?_⟩
    rw [Stmt.erase, Stmt.erase, token_eq_of_spelling (hwordSpelling.trans hspelt.symm)]
  | .ret token (some value), hspelt, hapart, follow, ts, _, hts => by
    obtain ⟨hword, hvalue⟩ := hspelt
    obtain ⟨word, us, rfl, hwordSpelling, hus⟩ := List.map_eq_cons_iff.1 hts
    obtain ⟨values, semicolon, rfl, hvalues, hsemicolon⟩ := exists_concat_of_map hus
    obtain ⟨tree, htree, herase⟩ := value.derives hvalue hapart.2 hvalues
    refine ⟨_, .ret (kind_of_spelling hwordSpelling) (htree.loosen (by decide) (by decide))
      (.semicolon semicolon (kind_of_spelling hsemicolon)), ?_⟩
    rw [Stmt.erase, Stmt.erase, herase, token_eq_of_spelling (hwordSpelling.trans hword.symm)]
  | .expr token expression, hspelt, hapart, follow, ts, hfollow, hts => by
    obtain ⟨tree, htree, herase⟩ := expression.derives hspelt.2 hapart.2 hts
    have hvalue : Derives (.expr 0) ts tree := htree.loosen (by decide) (by decide)
    obtain ⟨first, us, rfl⟩ := List.exists_cons_of_ne_nil hvalue.begins.ne_nil
    have hend : Terminator follow [] := .omitted (hfollow token expression rfl)
    have hstmt := Derives.expr hvalue hend
    rw [List.append_nil] at hstmt
    refine ⟨_, hstmt, ?_⟩
    rw [Stmt.erase, Stmt.erase, herase]
    rfl

theorem Stmt.derives_each : ∀ statements : List Stmt, Stmt.EverywhereEach spelt statements →
    Stmt.EverywhereEach apart statements → Apart statements →
    ∀ {ts}, ts.map Token.spelling = Stmt.spellingsOfEach statements →
    ∃ trees, Derives (.stmts .closeCurly) ts trees ∧
      Stmt.eraseEach .places trees = Stmt.eraseEach .places statements
  | [], _, _, _, ts, hts => by
    obtain rfl := List.map_eq_nil_iff.1 hts
    exact ⟨[], .noStmts, rfl⟩
  | statement :: statements, hspelt, hapart, hrow, ts, hts => by
    obtain ⟨us, vs, rfl, hus, hvs⟩ := List.map_eq_append_iff.1 hts
    have hfollow : ∀ token expression, statement = .expr token expression →
        ¬ Extends (firstKind vs .closeCurly) := by
      rintro token expression rfl
      exact not_extends_of_apart hspelt.2 hrow hvs
    obtain ⟨first, hfirst, hfirstErase⟩ := statement.derives hspelt.1 hapart.1 hfollow hus
    obtain ⟨others, hothers, hothersErase⟩ :=
      Stmt.derives_each statements hspelt.2 hapart.2 hrow.tail hvs
    refine ⟨_, .moreStmts hfirst hothers, ?_⟩
    rw [Stmt.eraseEach, Stmt.eraseEach, hfirstErase, hothersErase]

theorem Block.derives : ∀ block : Block, block.Everywhere spelt → block.Everywhere apart →
    ∀ {ts}, ts.map Token.spelling = block.spellings →
    ∃ tree, Derives .block ts tree ∧ tree.erase .places = block.erase .places
  | ⟨token, body⟩, hspelt, hapart, ts, hts => by
    obtain ⟨hbrace, hbody⟩ := hspelt
    obtain ⟨hrow, hbodyApart⟩ := hapart
    obtain ⟨brace, us, rfl, hbraceSpelling, hus⟩ := List.map_eq_cons_iff.1 hts
    obtain ⟨bodies, close, rfl, hbodies, hclose⟩ := exists_concat_of_map hus
    obtain ⟨trees, htrees, herase⟩ := Stmt.derives_each body hbody hbodyApart hrow hbodies
    refine ⟨_, .block (kind_of_spelling hbraceSpelling) htrees (kind_of_spelling hclose), ?_⟩
    rw [Block.erase, Block.erase, herase, token_eq_of_spelling (hbraceSpelling.trans hbrace.symm)]

end

end BraceLang
