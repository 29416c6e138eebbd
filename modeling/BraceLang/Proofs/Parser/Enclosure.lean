import BraceLang.Proofs.Parser.Sessions

/-!
# Semicolons and braces of an expression

A semicolon ends every expression, whatever the rules: an expression takes its braces in
pairs, and a semicolon only inside of one (`Parser.afterAll_encloses`).  The rules may be given
to any kinds, even to the semicolon, as long as no expression begins with one and no rule is
given to a brace (`Grammar.SparesBraces`).

* A rule takes the tokens that it expects, none of which is a semicolon, and the operator that
  brought it on, which is none either.  Only a block takes braces, both of them.
* So what is taken grows by single tokens, by expressions and by blocks
  (`Cursor.Encloses.step`, `Cursor.Encloses.append`, `Descent.Pairs.block`), and this is what
  the entry points of a grammar preserve (`descent_pairs`).
* A statement is an expression with some tokens more.  One of them can be a semicolon, but
  the statement itself is in a block.
-/

namespace BraceLang

open Descent

/-! ## Pairs of braces -/

/-- The braces among the tokens make pairs, and all tokens outside of these are of kinds that
satisfy `outside`. -/
inductive Balanced : (outside : TokenKind → Prop) → List Token → Prop where
  | nil {outside : TokenKind → Prop} : Balanced outside []
  | token {outside : TokenKind → Prop} {token : Token} {ts : List Token}
      (hopen : token.kind ≠ .openCurly) (hclose : token.kind ≠ .closeCurly)
      (h : outside token.kind) (hts : Balanced outside ts) : Balanced outside (token :: ts)
  | pair {outside : TokenKind → Prop} {opening closing : Token} {inner ts : List Token}
      (hopen : opening.kind = .openCurly) (hinner : Balanced (fun _ => True) inner)
      (hclose : closing.kind = .closeCurly) (hts : Balanced outside ts) :
      Balanced outside (opening :: (inner ++ closing :: ts))

/-- A token between `us` and `vs` is inside a pair of braces. -/
def Enclosed (us : List Token) (token : Token) (vs : List Token) : Prop :=
  ∃ before opening front back closing after,
    us = before ++ opening :: front ∧ vs = back ++ closing :: after ∧
      opening.kind = .openCurly ∧ closing.kind = .closeCurly ∧
      Balanced (fun _ => True) (front ++ token :: back)

section Balanced

variable {outside outside' : TokenKind → Prop} {ts us vs : List Token} {token : Token}

theorem Balanced.append (h : Balanced outside ts) (h' : Balanced outside us) :
    Balanced outside (ts ++ us) := by
  induction h with
  | nil => exact h'
  | token hopen hclose houtside _ ih => exact .token hopen hclose houtside (ih h')
  | pair hopen hinner hclose _ _ ih =>
    rw [List.cons_append, List.append_assoc, List.cons_append]
    exact .pair hopen hinner hclose (ih h')

theorem Balanced.weaken (h : Balanced outside ts) (hweaker : ∀ kind, outside kind → outside' kind) :
    Balanced outside' ts := by
  induction h with
  | nil => exact .nil
  | token hopen hclose houtside _ ih => exact .token hopen hclose (hweaker _ houtside) (ih hweaker)
  | pair hopen hinner hclose _ _ ih => exact .pair hopen hinner hclose (ih hweaker)

theorem Enclosed.behind (h : Enclosed us token vs) (ts : List Token) :
    Enclosed (ts ++ us) token vs := by
  obtain ⟨before, opening, front, back, closing, after, rfl, hvs, hpair⟩ := h
  exact ⟨ts ++ before, opening, front, back, closing, after, by rw [List.append_assoc], hvs, hpair⟩

/-- A token that cannot be outside of the pairs is inside of one. -/
theorem Balanced.enclosed (h : Balanced outside (us ++ token :: vs))
    (hopen : token.kind ≠ .openCurly) (hclose : token.kind ≠ .closeCurly)
    (houtside : ¬ outside token.kind) : Enclosed us token vs := by
  generalize hts : us ++ token :: vs = ts at h
  induction h generalizing us with
  | nil => simp at hts
  | @token outside first ts _ _ hfirst _ ih =>
    cases us with
    | nil =>
      cases hts
      exact absurd hfirst houtside
    | cons u us =>
      cases hts
      exact (ih houtside rfl).behind [first]
  | @pair outside opening closing inner ts hopening hinner hclosing _ _ ih =>
    cases us with
    | nil =>
      cases hts
      exact absurd hopening hopen
    | cons u us =>
      obtain ⟨rfl, hrow⟩ := List.cons.inj hts
      rcases List.append_eq_append_iff.1 hrow with ⟨as, hinner', htail⟩ | ⟨as, hus, htail⟩
      · cases as with
        | nil =>
          cases htail
          exact absurd hclosing hclose
        | cons a as =>
          cases htail
          exact ⟨[], u, us, as, closing, ts, rfl, rfl, hopening, hclosing, hinner' ▸ hinner⟩
      · cases as with
        | nil =>
          cases htail
          exact absurd hclosing hclose
        | cons a as =>
          obtain ⟨rfl, hrest⟩ := List.cons.inj htail
          subst hus
          have hbehind := (ih houtside hrest.symm).behind (u :: (inner ++ [closing]))
          simpa using hbehind

end Balanced

/-! ## Ways that keep pairs -/

/-- A token of this kind can be taken by itself, outside of all pairs. -/
def Single (outside : TokenKind → Prop) (kind : TokenKind) : Prop :=
  kind ≠ .eof ∧ kind ≠ .openCurly ∧ kind ≠ .closeCurly ∧ outside kind

instance (outside : TokenKind → Prop) [DecidablePred outside] (kind : TokenKind) :
    Decidable (Single outside kind) :=
  inferInstanceAs (Decidable (_ ∧ _ ∧ _ ∧ _))

namespace Cursor

variable {σ : Type} [TokenSource σ] {outside outside' : TokenKind → Prop}
  {start middle cursor : Cursor σ}

/-- The tokens from `start` through `cursor` are balanced. -/
def Encloses (outside : TokenKind → Prop) (start cursor : Cursor σ) : Prop :=
  ∃ ts, start.Reads ts cursor ∧ Balanced outside ts

/-- What an expression takes: no semicolon is outside of all pairs. -/
abbrev Unbroken (start cursor : Cursor σ) : Prop :=
  start.Encloses (· ≠ .semicolon) cursor

/-- What a statement takes: the braces make pairs. -/
abbrev Paired (start cursor : Cursor σ) : Prop :=
  start.Encloses (fun _ => True) cursor

/-- What the statements of a block take: the tokens up to the closing brace, with braces in
pairs. -/
def Fills (start cursor : Cursor σ) : Prop :=
  ∃ ts, start.Passes (fun place => place.current.kind ≠ .eof) ts cursor ∧
    Balanced (fun _ => True) ts ∧ cursor.current.kind = .closeCurly

theorem Encloses.one (h : Single outside cursor.current.kind) :
    cursor.Encloses outside cursor := by
  obtain ⟨hne, hopen, hclose, houtside⟩ := h
  exact ⟨[cursor.current], .last cursor hne, .token hopen hclose houtside .nil⟩

theorem Encloses.append (h : start.Encloses outside middle)
    (h' : middle.advance.Encloses outside cursor) : start.Encloses outside cursor := by
  obtain ⟨ts, hreads, hbalanced⟩ := h
  obtain ⟨us, hreads', hbalanced'⟩ := h'
  exact ⟨ts ++ us, hreads.append hreads', hbalanced.append hbalanced'⟩

/-- One token more. -/
theorem Encloses.step (h : start.Encloses outside cursor)
    (hpeek : Single outside cursor.peek.kind) : start.Encloses outside cursor.advance :=
  h.append (.one hpeek)

theorem Encloses.expect {kind : TokenKind} (h : start.Encloses outside cursor)
    (hkind : cursor.peek.kind = kind) (hsingle : Single outside kind) :
    start.Encloses outside cursor.advance :=
  h.step (hkind ▸ hsingle)

theorem Unbroken.paired (h : start.Unbroken cursor) : start.Paired cursor := by
  obtain ⟨ts, hreads, hbalanced⟩ := h
  exact ⟨ts, hreads, hbalanced.weaken fun _ _ => trivial⟩

theorem Paired.skipOptional (h : start.Paired cursor) :
    start.Paired (cursor.skipOptional .semicolon) := by
  unfold Cursor.skipOptional
  split
  · rename_i hsemicolon
    exact h.expect hsemicolon (by decide)
  · exact h

theorem Fills.more (h : start.Paired middle) (h' : middle.advance.Fills cursor) :
    start.Fills cursor := by
  obtain ⟨ts, hreads, hbalanced⟩ := h
  obtain ⟨us, hpasses, hbalanced', hclose⟩ := h'
  exact ⟨ts ++ us, hreads.passes.trans hpasses, hbalanced.append hbalanced', hclose⟩

/-- A block is a pair of braces. -/
theorem Fills.block (h : start.advance.Fills cursor) (hopen : start.current.kind = .openCurly) :
    start.Encloses outside cursor := by
  obtain ⟨ts, hpasses, hbalanced, hclose⟩ := h
  have hfirst : start.current.kind ≠ .eof := TokenKind.ne_eof_of_eq hopen (by decide)
  have hlast : cursor.current.kind ≠ .eof := TokenKind.ne_eof_of_eq hclose (by decide)
  exact ⟨_, .more hfirst (hpasses.reads (fun _ => id) hlast), .pair hopen hbalanced hclose .nil⟩

end Cursor

/-! ## Rules -/

/-- No expression begins with a semicolon, a brace or the end, and none goes on with a brace
or the end.  No statement begins with a brace or is a bare block. -/
structure Grammar.SparesBraces (grammar : Grammar) : Prop where
  leading : ∀ kind rule, grammar.leading kind = some rule → Single (· ≠ .semicolon) kind
  trailing : ∀ kind entry, grammar.trailing kind = some entry →
    kind ≠ .eof ∧ kind ≠ .openCurly ∧ kind ≠ .closeCurly
  statement : ∀ kind rule, grammar.statement kind = some rule →
    kind ≠ .openCurly ∧ kind ≠ .closeCurly ∧ rule ≠ .bareBlock

variable {σ : Type} [TokenSource σ]

/-- The entry points of `d` take braces in pairs. -/
structure Descent.Pairs (d : Descent σ) : Prop where
  expr : ∀ floor cursor, (d.expr floor cursor).Gives fun _ moved => cursor.Unbroken moved
  chain : ∀ floor left (start cursor : Cursor σ), start.Unbroken cursor →
    (d.chain floor left cursor).Gives fun _ moved => start.Unbroken moved
  stmt : ∀ cursor, cursor.current.kind ≠ .eof →
    (d.stmt cursor).Gives fun _ moved => cursor.Paired moved
  stmts : ∀ cursor, (d.stmts cursor).Gives fun _ moved => cursor.Fills moved
  parameters : ∀ start cursor : Cursor σ, start.Unbroken cursor →
    (d.parameters cursor).Gives fun _ moved => start.Unbroken moved
  arguments : ∀ start cursor : Cursor σ, start.Unbroken cursor →
    (d.arguments cursor).Gives fun _ moved => start.Unbroken moved

namespace Descent.Pairs

variable {d : Descent σ} {grammar : Grammar} {start cursor : Cursor σ}

/-! ### Leading rules -/

/-- An expression behind what is taken. -/
theorem operand (hd : d.Pairs) (floor : BindingPower) (h : start.Encloses (· ≠ .semicolon) cursor) :
    (d.expr floor cursor.advance).Gives fun _ moved => start.Unbroken moved :=
  (hd.expr floor cursor.advance).imp fun _ _ hexpr => h.append hexpr

/-- A block behind what is taken. -/
theorem block (hd : d.Pairs) (h : start.Unbroken cursor)
    (hopen : cursor.peek.kind = .openCurly) :
    (d.block cursor.advance).Gives fun _ moved => start.Unbroken moved :=
  ensures_block.2 ((hd.stmts cursor.advance.advance).imp fun _ _ hfills =>
    h.append (hfills.block hopen))

theorem alternative (hd : d.Pairs) (h : start.Unbroken cursor) :
    (d.alternative cursor).Gives fun _ moved => start.Unbroken moved := by
  apply ensures_alternative.2
  refine ⟨fun hword => ⟨fun hopen => ?_, fun _ => trivial⟩, fun _ => h⟩
  exact hd.block (h.expect hword (by decide)) hopen

theorem conditional (hd : d.Pairs) (h : start.Unbroken cursor) :
    (d.conditional cursor).Gives fun _ moved => start.Unbroken moved := by
  apply ensures_conditional.2
  refine (hd.operand .default h).imp fun condition tested htested => ?_
  refine ⟨fun hopen => ?_, fun _ => trivial⟩
  refine (hd.block htested hopen).imp fun consequence first hfirst => ?_
  exact hd.alternative hfirst

theorem group (hd : d.Pairs) (h : start.Unbroken cursor) :
    (d.group cursor).Gives fun _ moved => start.Unbroken moved := by
  apply ensures_group.2
  refine (hd.operand .default h).imp fun inner moved hinner => ?_
  exact ⟨fun hclose => hinner.expect hclose (by decide), fun _ => trivial⟩

theorem parameterList (hd : d.Pairs) (h : start.Unbroken cursor) :
    (d.parameterList cursor).Gives fun _ moved => start.Unbroken moved := by
  apply ensures_parameterList.2
  refine ⟨fun hclose => h.expect hclose (by decide), fun _ => ?_⟩
  refine (hd.parameters start cursor h).imp fun names moved hnames => ?_
  exact ⟨fun hclose => hnames.expect hclose (by decide), fun _ => trivial⟩

theorem function (hd : d.Pairs) (h : start.Unbroken cursor) :
    (d.function cursor).Gives fun _ moved => start.Unbroken moved := by
  apply ensures_function.2
  refine ⟨fun hparen => ?_, fun _ => trivial⟩
  refine (hd.parameterList (h.expect hparen (by decide))).imp fun names listed hlisted => ?_
  exact ⟨fun hopen => hd.block hlisted hopen, fun _ => trivial⟩

theorem lead (hd : d.Pairs) (rule : LeadingRule) (h : start.Unbroken cursor) :
    (d.lead rule cursor).Gives fun _ moved => start.Unbroken moved := by
  cases rule with
  | literal => exact ensures_literal.2 ⟨fun _ _ => h, fun _ _ => trivial⟩
  | operator => exact ensures_operator.2 (hd.operand .unary h)
  | group => exact hd.group h
  | conditional => exact hd.conditional h
  | function => exact hd.function h

/-! ### Trailing rules -/

theorem argumentList (hd : d.Pairs) (h : start.Unbroken cursor) :
    (d.argumentList cursor).Gives fun _ moved => start.Unbroken moved := by
  apply ensures_argumentList.2
  refine ⟨fun hclose => h.expect hclose (by decide), fun _ => ?_⟩
  refine (hd.operand .default h).imp fun first one hone => ?_
  refine (hd.arguments start one hone).imp fun others moved hmoved => ?_
  exact ⟨fun hclose => hmoved.expect hclose (by decide), fun _ => trivial⟩

theorem trail (hd : d.Pairs) (left : Expr) (power : BindingPower) (rule : TrailingRule)
    (h : start.Unbroken cursor) :
    (d.trail left power rule cursor).Gives fun _ moved => start.Unbroken moved := by
  cases rule with
  | binary => exact ensures_binary.2 (hd.operand power h)
  | binaryRight => exact ensures_binary.2 (hd.operand power.pred h)
  | call => exact ensures_call.2 (hd.argumentList h)
  | bareCall => exact h

/-! ### Statements -/

theorem expression (hd : d.Pairs) (cursor : Cursor σ) :
    (d.expression cursor).Gives fun _ moved => cursor.Paired moved :=
  ensures_expression.2 ((hd.expr .default cursor).imp fun _ _ hvalue =>
    hvalue.paired.skipOptional)

/-- A value behind what is taken, and the semicolon that can follow it. -/
theorem value (hd : d.Pairs) (h : start.Paired cursor) :
    (d.expr .default cursor.advance).Gives fun _ moved =>
      start.Paired (moved.skipOptional .semicolon) :=
  (hd.expr .default cursor.advance).imp fun _ _ hvalue =>
    Cursor.Paired.skipOptional (h.append hvalue.paired)

theorem binding (hd : d.Pairs) (h : start.Paired cursor) :
    (d.binding cursor).Gives fun _ moved => start.Paired moved := by
  apply ensures_binding.2
  refine ⟨fun hname => ⟨fun hsign => ?_, fun _ => trivial⟩, fun _ => trivial⟩
  exact hd.value ((h.expect hname (by decide)).expect hsign (by decide))

theorem result (hd : d.Pairs) (h : start.Paired cursor) :
    (d.result cursor).Gives fun _ moved => start.Paired moved := by
  apply ensures_result.2
  exact ⟨fun _ => h.skipOptional, fun _ => hd.value h⟩

theorem strictResult (hd : d.Pairs) (h : start.Paired cursor) :
    (d.strictResult cursor).Gives fun _ moved => start.Paired moved :=
  ensures_strictResult.2 (hd.value h)

theorem statement (hd : d.Pairs) (rule : StatementRule) (hrule : rule ≠ .bareBlock)
    (h : cursor.Paired cursor) :
    (d.statement rule cursor).Gives fun _ moved => cursor.Paired moved := by
  cases rule with
  | binding => exact hd.binding h
  | result => exact hd.result h
  | expression => exact hd.expression cursor
  | strictResult => exact hd.strictResult h
  | bareBlock => exact absurd rfl hrule

/-! ### One unit more -/

theorem exprStep (hg : grammar.SparesBraces) (hd : d.Pairs) (floor : BindingPower)
    (cursor : Cursor σ) :
    (exprStep grammar d floor cursor).Gives fun _ moved => cursor.Unbroken moved := by
  apply ensures_exprStep.2
  refine ⟨fun rule hrule => ?_, fun _ => trivial⟩
  refine (hd.lead rule (.one (hg.leading _ _ hrule))).imp fun left moved hleft => ?_
  exact hd.chain floor left cursor moved hleft

/-- The chain never goes on with a semicolon, even where this has a trailing rule. -/
theorem chainStep (hg : grammar.SparesBraces) (hd : d.Pairs) (floor : BindingPower) (left : Expr)
    (h : start.Unbroken cursor) :
    (chainStep grammar d floor left cursor).Gives fun _ moved => start.Unbroken moved := by
  apply ensures_chainStep.2
  refine ⟨fun power rule hrule => ?_, fun _ => h⟩
  obtain ⟨htrailing, hsemicolon, _⟩ := Grammar.continuation_eq_some.1 hrule
  obtain ⟨hne, hopen, hclose⟩ := hg.trailing _ _ htrailing
  have hoperator := h.step ⟨hne, hopen, hclose, hsemicolon⟩
  refine (hd.trail left power rule hoperator).imp fun longer moved hlonger => ?_
  exact hd.chain floor longer start moved hlonger

theorem stmtStep (hg : grammar.SparesBraces) (hd : d.Pairs) (hne : cursor.current.kind ≠ .eof) :
    (stmtStep grammar d cursor).Gives fun _ moved => cursor.Paired moved := by
  apply ensures_stmtStep.2
  refine ⟨fun rule hrule => ?_, fun _ => hd.expression cursor⟩
  obtain ⟨hopen, hclose, hblock⟩ := hg.statement _ _ hrule
  exact hd.statement rule hblock (.one ⟨hne, hopen, hclose, trivial⟩)

theorem stmtsStep (hd : d.Pairs) (cursor : Cursor σ) :
    (stmtsStep d cursor).Gives fun _ moved => cursor.Fills moved := by
  apply ensures_stmtsStep.2
  refine ⟨fun hclose => ⟨[], .here cursor, .nil, hclose⟩, fun _ => trivial, fun _ hne => ?_⟩
  refine (hd.stmt cursor hne).imp fun first moved hfirst => ?_
  exact (hd.stmts moved.advance).imp fun others last hothers => .more hfirst hothers

theorem parametersStep (hd : d.Pairs) (h : start.Unbroken cursor) :
    (parametersStep d cursor).Gives fun _ moved => start.Unbroken moved := by
  apply ensures_parametersStep.2
  refine ⟨fun hname => ?_, fun _ => trivial⟩
  have hnamed := h.expect hname (by decide)
  exact ⟨fun hcomma => hd.parameters start _ (hnamed.expect hcomma (by decide)), fun _ => hnamed⟩

theorem argumentsStep (hd : d.Pairs) (h : start.Unbroken cursor) :
    (argumentsStep d cursor).Gives fun _ moved => start.Unbroken moved := by
  apply ensures_argumentsStep.2
  refine ⟨fun hcomma => ?_, fun _ => h⟩
  refine (hd.operand .default (h.expect hcomma (by decide))).imp fun argument one hone => ?_
  exact hd.arguments start one hone

theorem step (hg : grammar.SparesBraces) (hd : d.Pairs) : (Descent.step grammar d).Pairs where
  expr floor cursor := hd.exprStep hg floor cursor
  chain floor left _ _ h := hd.chainStep hg floor left h
  stmt _ hne := hd.stmtStep hg hne
  stmts cursor := hd.stmtsStep cursor
  parameters _ _ h := hd.parametersStep h
  arguments _ _ h := hd.argumentsStep h

end Descent.Pairs

theorem descent_pairs {grammar : Grammar} (hg : grammar.SparesBraces) (fuel : Nat) :
    (descent grammar fuel : Descent σ).Pairs := by
  induction fuel with
  | zero => constructor <;> intros <;> trivial
  | succ fuel ih =>
    rw [descent_succ]
    exact ih.step hg

/-! ## Sessions -/

/-- The request gives no rule to a brace.  It lets no expression begin with a semicolon or the
end, or go on with the end, and lets no statement be a bare block. -/
def Request.SparesBraces : Request → Prop
  | .registerLeading kind _ => Single (· ≠ .semicolon) kind
  | .registerTrailing kind _ _ => kind ≠ .eof ∧ kind ≠ .openCurly ∧ kind ≠ .closeCurly
  | .registerStatement kind rule => kind ≠ .openCurly ∧ kind ≠ .closeCurly ∧ rule ≠ .bareBlock
  | _ => True

namespace Grammar.SparesBraces

variable {grammar : Grammar} {kind : TokenKind}

theorem standard : Grammar.standard.SparesBraces where
  leading kind rule h := by cases kind <;> first | decide | cases h
  trailing kind entry h := by cases kind <;> first | decide | cases h
  statement kind rule h := by cases kind <;> cases h <;> decide

theorem withLeading (hg : grammar.SparesBraces) (h : Single (· ≠ .semicolon) kind)
    (rule : LeadingRule) : (grammar.withLeading kind rule).SparesBraces where
  leading other rule' hrule := by
    by_cases heq : other = kind
    · exact heq ▸ h
    · exact hg.leading other rule' ((if_neg heq).symm.trans hrule)
  trailing := hg.trailing
  statement := hg.statement

theorem withTrailing (hg : grammar.SparesBraces)
    (h : kind ≠ .eof ∧ kind ≠ .openCurly ∧ kind ≠ .closeCurly) (power : BindingPower)
    (rule : TrailingRule) : (grammar.withTrailing kind power rule).SparesBraces where
  leading := hg.leading
  trailing other entry hentry := by
    by_cases heq : other = kind
    · exact heq ▸ h
    · exact hg.trailing other entry ((if_neg heq).symm.trans hentry)
  statement := hg.statement

theorem withStatement (hg : grammar.SparesBraces) {rule : StatementRule}
    (h : kind ≠ .openCurly ∧ kind ≠ .closeCurly ∧ rule ≠ .bareBlock) :
    (grammar.withStatement kind rule).SparesBraces where
  leading := hg.leading
  trailing := hg.trailing
  statement other rule' hrule := by
    by_cases heq : other = kind
    · subst heq
      have hsome := (if_pos rfl).symm.trans hrule
      cases hsome
      exact h
    · exact hg.statement other rule' ((if_neg heq).symm.trans hrule)

theorem withStandard (hg : grammar.SparesBraces) : grammar.withStandard.SparesBraces where
  leading kind rule h := (Option.or_eq_some_iff.1 h).elim (standard.leading kind rule)
    fun hother => hg.leading kind rule hother.2
  trailing kind entry h := (Option.or_eq_some_iff.1 h).elim (standard.trailing kind entry)
    fun hother => hg.trailing kind entry hother.2
  statement kind rule h := (Option.or_eq_some_iff.1 h).elim (standard.statement kind rule)
    fun hother => hg.statement kind rule hother.2

theorem rules {request : Request} (hg : grammar.SparesBraces) (h : request.SparesBraces) :
    (request.rules grammar).SparesBraces := by
  cases request with
  | registerLeading kind rule => exact hg.withLeading h rule
  | registerTrailing kind power rule => exact hg.withTrailing h power rule
  | registerStatement kind rule => exact hg.withStatement h
  | registerStandard => exact hg.withStandard
  | _ => exact hg

end Grammar.SparesBraces

namespace Parser

variable {parser moved : Parser σ} {floor : BindingPower} {expression : Expr}

theorem unbroken_of_parseExpr (hg : parser.grammar.SparesBraces)
    (h : parser.parseExpr (.expr floor) = .ok expression moved) :
    parser.cursor.Unbroken moved.cursor := by
  have hgives : (parser.parseExpr (.expr floor)).Gives fun _ last =>
      parser.cursor.Unbroken last.cursor :=
    (Outcome.ensures_mapState _ _).2
      ((descent_pairs hg parser.cursor.fuel).expr floor parser.cursor)
  rw [h] at hgives
  exact hgives

/-- Whatever rules a session has given to kinds other than braces, the tokens of an expression
have their braces in pairs, and each semicolon among them is inside of one. -/
theorem afterAll_encloses (hstandard : parser.grammar = .standard) {requests : List Request}
    (hspare : ∀ request ∈ requests, request.SparesBraces)
    (h : (parser.afterAll requests).parseExpr (.expr floor) = .ok expression moved) :
    ∃ ts, (parser.afterAll requests).cursor.Reads ts moved.cursor ∧
      Balanced (fun _ => True) ts ∧
      ∀ us token vs, ts = us ++ token :: vs → token.kind = .semicolon → Enclosed us token vs := by
  have hg : (parser.afterAll requests).grammar.SparesBraces :=
    grammar_afterAll (fun _ _ => Grammar.SparesBraces.rules)
      (hstandard ▸ Grammar.SparesBraces.standard) hspare
  obtain ⟨ts, hreads, hbalanced⟩ := unbroken_of_parseExpr hg h
  refine ⟨ts, hreads, hbalanced.weaken fun _ _ => trivial, fun us token vs hts hkind => ?_⟩
  subst hts
  exact hbalanced.enclosed (by simp [hkind]) (by simp [hkind]) (fun hne => hne hkind)

/-- A semicolon that binds like a call does not go on with the function in front of it; the
one in the body is inside of the braces. -/
theorem afterAll_encloses_body :
    let place : Span := ⟨⟨0, "body"⟩, ⟨0, "body"⟩⟩
    let tokens : List Token := [⟨.fnWord, "fn", place⟩, ⟨.openParen, "(", place⟩,
      ⟨.closeParen, ")", place⟩, ⟨.openCurly, "\x7b", place⟩, ⟨.identifier, "a", place⟩,
      ⟨.semicolon, ";", place⟩, ⟨.closeCurly, "\x7d", place⟩, ⟨.semicolon, ";", place⟩,
      ⟨.identifier, "b", place⟩]
    let requests : List Request := [.registerTrailing .semicolon .call .binary]
    let parser := Parser.start (TokenBuffer.ofList tokens)
    let later := parser.afterAll requests
    parser.grammar = .standard ∧ (∀ request ∈ requests, request.SparesBraces) ∧
      ∃ expression moved, later.parseExpr (.expr .default) = .ok expression moved ∧
        ∃ ts, later.cursor.Reads ts moved.cursor ∧ Balanced (fun _ => True) ts ∧
          ∀ us token vs, ts = us ++ token :: vs → token.kind = .semicolon →
            Enclosed us token vs := by
  intro place tokens requests parser later
  have hspare : ∀ request ∈ requests, request.SparesBraces := by
    simp [requests, Request.SparesBraces]
  have hread : later.parseExpr (.expr .default) = .ok _ _ := rfl
  exact ⟨rfl, hspare, _, _, hread, afterAll_encloses rfl hspare hread⟩

end Parser

end BraceLang
