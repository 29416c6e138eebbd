import BraceLang.Proofs.Syntax.Standard
import BraceLang.Proofs.Tree.Nodes

/-!
# Trees and the tokens they are derived from

* `Expr.tokens` and the functions beside it list the tokens of a tree in the order of the
  source.  They are among the tokens that the tree is derived from, in this order
  (`Derives.tokens_sublist`).
* Each node of a tree is derived from some consecutive ones of these tokens
  (`Derives.everywhere_parts`), and a statement is known by the first of them.  So no node
  can be known by a token that stands elsewhere.

The token of an expression that stands as a statement is left out of the list: it is the
first token of the expression, which is in the list already or is a parenthesis.
-/

namespace BraceLang

open Syntax

/-! ## The tokens of a tree -/

mutual

/-- The tokens of an expression in the order of the source. -/
def Expr.tokens : Expr → List Token
  | .ident identifier => [identifier.token]
  | .int token _ => [token]
  | .str token _ => [token]
  | .bool token _ => [token]
  | .unary token _ operand => token :: operand.tokens
  | .binary token _ left right => left.tokens ++ token :: right.tokens
  | .cond token condition consequence none =>
    token :: (condition.tokens ++ consequence.tokens)
  | .cond token condition consequence (some alternative) =>
    token :: (condition.tokens ++ (consequence.tokens ++ alternative.tokens))
  | .func token parameters body => token :: (parameters.map Identifier.token ++ body.tokens)
  | .call token callee arguments => callee.tokens ++ token :: Expr.tokensOfEach arguments

/-- The tokens of expressions, one after the other. -/
def Expr.tokensOfEach : List Expr → List Token
  | [] => []
  | expression :: expressions => expression.tokens ++ Expr.tokensOfEach expressions

/-- The tokens of a statement, without the first one of an expression. -/
def Stmt.tokens : Stmt → List Token
  | .bind token name value => token :: name.token :: value.tokens
  | .ret token none => [token]
  | .ret token (some value) => token :: value.tokens
  | .expr _ expression => expression.tokens

/-- The tokens of statements, one after the other. -/
def Stmt.tokensOfEach : List Stmt → List Token
  | [] => []
  | statement :: statements => statement.tokens ++ Stmt.tokensOfEach statements

/-- The tokens of a block, the opening brace in front. -/
def Block.tokens : Block → List Token
  | ⟨token, body⟩ => token :: Stmt.tokensOfEach body

end

/-- The tokens that an expression holds itself. -/
def Expr.held : Expr → List Token
  | .func token parameters _ => token :: parameters.map Identifier.token
  | expression => [expression.token]

/-- The tokens that a statement holds itself. -/
def Stmt.held : Stmt → List Token
  | .bind token name _ => [token, name.token]
  | .ret token _ => [token]
  | .expr token _ => [token]

theorem Expr.held_subset (expression : Expr) : expression.held ⊆ expression.tokens := by
  cases expression with
  | cond _ _ _ alternative => cases alternative <;> simp [held, Expr.token, Expr.tokens]
  | _ => simp [held, Expr.token, Expr.tokens]

theorem Stmt.held_subset (statement : Stmt) :
    statement.held ⊆ statement.token :: statement.tokens := by
  cases statement with
  | bind => simp [held, Stmt.token, Stmt.tokens]
  | ret _ value => cases value <;> simp [held, Stmt.token]
  | expr => simp [held, Stmt.token]

theorem Block.token_mem (block : Block) : block.token ∈ block.tokens := by
  cases block
  exact List.mem_cons_self

namespace Syntax

variable {symbol : Symbol} {ts : List Token} {tree : symbol.Tree}

/-- The tokens of the trees of a symbol. -/
def Symbol.tokens : (symbol : Symbol) → symbol.Tree → List Token
  | .expr _, expression => Expr.tokens expression
  | .arguments, expressions | .moreArguments, expressions => Expr.tokensOfEach expressions
  | .parameters, identifiers | .names, identifiers => identifiers.map Identifier.token
  | .block, read => Block.tokens read
  | .stmt _, statement => Stmt.tokens statement
  | .stmts _, statements => Stmt.tokensOfEach statements

/-- A tree has tokens that it is derived from, in their order. -/
theorem Derives.tokens_sublist (h : Derives symbol ts tree) :
    (symbol.tokens tree).Sublist ts := by
  induction h with
  | binary _ _ _ ihleft ihright => exact ihleft.append (ihright.cons_cons _)
  | tighter _ _ ih => exact ih
  | unary _ _ ih => exact ih.cons_cons _
  | call _ _ _ _ ihcallee ihargs =>
    exact ihcallee.append ((ihargs.trans (List.sublist_append_left _ _)).cons_cons _)
  | ident | int | str | true | false => exact List.Sublist.refl _
  | group _ _ _ ih => exact (ih.trans (List.sublist_append_left _ _)).cons _
  | cond _ _ _ ihcondition ihconsequence =>
    exact (ihcondition.append ihconsequence).cons_cons _
  | condElse _ _ _ _ _ ihcondition ihconsequence ihalternative =>
    exact (ihcondition.append (ihconsequence.append (ihalternative.cons _))).cons_cons _
  | func _ _ _ _ _ ihnames ihbody =>
    exact ((ihnames.append (ihbody.cons _)).cons _).cons_cons _
  | noArguments | noMoreArguments | noParameters | noStmts => exact List.Sublist.refl _
  | someArguments _ _ ihfirst ihothers => exact ihfirst.append ihothers
  | moreArguments _ _ _ ihfirst ihothers => exact (ihfirst.append ihothers).cons _
  | someParameters _ ih => exact ih
  | lastName => exact List.Sublist.refl _
  | moreNames _ _ _ ih => exact (ih.cons _).cons_cons _
  | block _ _ _ ih => exact (ih.trans (List.sublist_append_left _ _)).cons_cons _
  | bind _ _ _ _ _ ih =>
    exact (((ih.trans (List.sublist_append_left _ _)).cons _).cons_cons _).cons_cons _
  | ret _ _ _ ih => exact (ih.trans (List.sublist_append_left _ _)).cons_cons _
  | bareRet => exact (List.nil_sublist _).cons_cons _
  | expr _ _ ih => exact ih.trans (List.sublist_append_left (_ :: _) _)
  | moreStmts _ _ ihfirst ihothers => exact ihfirst.append ihothers

/-! ## The part of each node -/

/-- What the tokens of a symbol do not end with. -/
def Symbol.EndsClosed (symbol : Symbol) (ts : List Token) : Prop :=
  match symbol with
  | .expr _ | .block | .stmt _ => EndsWith (· ≠ .openParen) ts
  | _ => True

/-- No statement ends with an opening parenthesis. -/
theorem Derives.endsClosed (h : Derives symbol ts tree) : symbol.EndsClosed ts := by
  have hterminated : ∀ {follow : TokenKind} {vs us : List Token}, Terminator follow us →
      EndsWith (· ≠ .openParen) vs → EndsWith (· ≠ .openParen) (vs ++ us) := by
    intro follow vs us hend hvs
    cases hend with
    | semicolon token hkind => exact .intro (by rw [hkind]; decide)
    | omitted => rwa [List.append_nil]
  induction h with
  | binary _ _ _ _ ihright => exact (ihright.cons _).append _
  | tighter _ _ ih => exact ih
  | unary _ _ ih => exact ih.cons _
  | call _ _ _ hclose => exact ((EndsWith.intro (by rw [hclose]; decide)).cons _).append _
  | ident hkind => exact .single (by rw [hkind]; decide)
  | int hkind => exact .single (by rw [hkind]; decide)
  | str hkind => exact .single (by rw [hkind]; decide)
  | true hkind => exact .single (by rw [hkind]; decide)
  | false hkind => exact .single (by rw [hkind]; decide)
  | group _ _ hclose => exact (EndsWith.intro (by rw [hclose]; decide)).cons _
  | cond _ _ _ _ ihconsequence => exact (ihconsequence.append _).cons _
  | condElse _ _ _ _ _ _ _ ihalternative =>
      exact (((ihalternative.cons _).append _).append _).cons _
  | func _ _ _ _ _ _ ihbody => exact (((ihbody.cons _).append _).cons _).cons _
  | block _ _ hclose => exact (EndsWith.intro (by rw [hclose]; decide)).cons _
  | bind _ _ _ _ hend ih => exact (((hterminated hend ih).cons _).cons _).cons _
  | ret _ _ hend ih => exact (hterminated hend ih).cons _
  | bareRet hword hend =>
    cases hend with
    | semicolon token hkind => exact .cons _ (.single (by rw [hkind]; decide))
    | omitted => exact .single (by rw [hword]; decide)
  | expr _ hend ih => exact hterminated hend ih
  | _ => trivial

/-- Each node is derived from a part of the tokens.  That of a statement begins with the token
of the statement, and behind no opening parenthesis: there is none left out that would belong
to the statement. -/
def parts (tokens : List Token) : Nodes where
  expr expression := ∃ level text, text <:+: tokens ∧ Derives (.expr level) text expression
  stmt statement := ∃ before text after, tokens = before ++ (text ++ after) ∧
    Derives (.stmt (firstKind after .eof)) text statement ∧
    text.head? = some statement.token ∧ ¬ EndsWith (· = .openParen) before
  block block := ∃ text, text <:+: tokens ∧ Derives .block text block

/-- The conditions hold of every node of the trees of a symbol. -/
def Symbol.Everywhere (N : Nodes) : (symbol : Symbol) → symbol.Tree → Prop
  | .expr _, expression => Expr.Everywhere N expression
  | .arguments, expressions | .moreArguments, expressions => Expr.EverywhereEach N expressions
  | .parameters, _ | .names, _ => True
  | .block, read => Block.Everywhere N read
  | .stmt _, statement => Stmt.Everywhere N statement
  | .stmts _, statements => Stmt.EverywhereEach N statements

/-- A symbol can stand between some tokens. -/
def Symbol.Between (before after : List Token) : Symbol → Prop
  | .stmt follow | .stmts follow =>
    follow = firstKind after .eof ∧ ¬ EndsWith (· = .openParen) before
  | _ => True

theorem firstKind_append (ts us : List Token) (follow : TokenKind) :
    firstKind (ts ++ us) follow = firstKind ts (firstKind us follow) := by
  cases ts <;> rfl

theorem not_endsWith_of_ne {kind : TokenKind} {ts : List Token} (before : List Token)
    (h : EndsWith (· ≠ kind) ts) : ¬ EndsWith (· = kind) (before ++ ts) :=
  fun hends => EndsWith.absurd hends (h.append before)

/-- What is derived from some of the tokens has nodes that are derived from parts of them. -/
theorem Derives.everywhere_parts {tokens : List Token} (h : Derives symbol ts tree) :
    ∀ before after, tokens = before ++ (ts ++ after) → symbol.Between before after →
      symbol.Everywhere (parts tokens) tree := by
  induction h with
  | @binary level ts us operator left right hkind hleft hright ihleft ihright =>
    intro before after htokens _
    refine ⟨⟨level, _, ⟨before, after, ?_⟩, .binary hkind hleft hright⟩,
      ihleft before (operator :: us ++ after) ?_ trivial,
      ihright (before ++ ts ++ [operator]) after ?_ trivial⟩
    all_goals simp [htokens]
  | tighter _ _ ih => exact ih
  | @unary ts operator operand hkind hoperand ih =>
    intro before after htokens _
    refine ⟨⟨5, _, ⟨before, after, ?_⟩, .unary hkind hoperand⟩,
      ih (before ++ [operator]) after ?_ trivial⟩
    all_goals simp [htokens]
  | @call ts us paren close callee args hcallee hparen hargs hclose ihcallee ihargs =>
    intro before after htokens _
    refine ⟨⟨6, _, ⟨before, after, ?_⟩, .call hcallee hparen hargs hclose⟩,
      ihcallee before (paren :: us ++ close :: after) ?_ trivial,
      ihargs (before ++ ts ++ [paren]) (close :: after) ?_ trivial⟩
    all_goals simp [htokens]
  | ident hkind => exact fun before after htokens _ =>
      ⟨7, _, ⟨before, after, by rw [htokens, List.append_assoc]⟩, .ident hkind⟩
  | int hkind hvalue => exact fun before after htokens _ =>
      ⟨7, _, ⟨before, after, by rw [htokens, List.append_assoc]⟩, .int hkind hvalue⟩
  | str hkind => exact fun before after htokens _ =>
      ⟨7, _, ⟨before, after, by rw [htokens, List.append_assoc]⟩, .str hkind⟩
  | true hkind => exact fun before after htokens _ =>
      ⟨7, _, ⟨before, after, by rw [htokens, List.append_assoc]⟩, .true hkind⟩
  | false hkind => exact fun before after htokens _ =>
      ⟨7, _, ⟨before, after, by rw [htokens, List.append_assoc]⟩, .false hkind⟩
  | @group ts paren close expression hparen _ hclose ih =>
    intro before after htokens _
    exact ih (before ++ [paren]) (close :: after) (by simp [htokens]) trivial
  | @cond ts us word condition consequence hword hcondition hconsequence ihcondition
      ihconsequence =>
    intro before after htokens _
    refine ⟨⟨7, _, ⟨before, after, ?_⟩, .cond hword hcondition hconsequence⟩,
      ihcondition (before ++ [word]) (us ++ after) ?_ trivial,
      ihconsequence (before ++ word :: ts) after ?_ trivial⟩
    all_goals simp [htokens]
  | @condElse ts us vs word other condition consequence alternative hword hcondition
      hconsequence hother halternative ihcondition ihconsequence ihalternative =>
    intro before after htokens _
    refine ⟨⟨7, _, ⟨before, after, ?_⟩,
        .condElse hword hcondition hconsequence hother halternative⟩,
      ihcondition (before ++ [word]) (us ++ other :: vs ++ after) ?_ trivial,
      ihconsequence (before ++ word :: ts) (other :: vs ++ after) ?_ trivial,
      ihalternative (before ++ word :: ts ++ us ++ [other]) after ?_ trivial⟩
    all_goals simp [htokens]
  | @func ts us word paren close names body hword hparen hnames hclose hbody _ ihbody =>
    intro before after htokens _
    refine ⟨⟨7, _, ⟨before, after, ?_⟩, .func hword hparen hnames hclose hbody⟩,
      ihbody (before ++ word :: paren :: ts ++ [close]) after ?_ trivial⟩
    all_goals simp [htokens]
  | noArguments | noMoreArguments | noParameters | someParameters | lastName | moreNames
  | noStmts => exact fun _ _ _ _ => trivial
  | @someArguments ts us first others _ _ ihfirst ihothers =>
    intro before after htokens _
    refine ⟨ihfirst before (us ++ after) ?_ trivial, ihothers (before ++ ts) after ?_ trivial⟩
    all_goals simp [htokens]
  | @moreArguments ts us comma first others _ _ _ ihfirst ihothers =>
    intro before after htokens _
    refine ⟨ihfirst (before ++ [comma]) (us ++ after) ?_ trivial,
      ihothers (before ++ comma :: ts) after ?_ trivial⟩
    all_goals simp [htokens]
  | @block ts brace close body hbrace hbody hclose ih =>
    intro before after htokens _
    refine ⟨⟨_, ⟨before, after, ?_⟩, .block hbrace hbody hclose⟩,
      ih (before ++ [brace]) (close :: after) ?_ ⟨hclose.symm, ?_⟩⟩
    · simp [htokens]
    · simp [htokens]
    · exact not_endsWith_of_ne before (.single (by rw [hbrace]; decide))
  | @bind follow ts us word name sign value hword hname hsign hvalue hend ih =>
    rintro before after htokens ⟨rfl, hbefore⟩
    exact ⟨⟨before, _, after, htokens, .bind hword hname hsign hvalue hend, rfl, hbefore⟩,
      ih (before ++ [word, name, sign]) (us ++ after) (by simp [htokens]) trivial⟩
  | @ret follow ts us word value hword hvalue hend ih =>
    rintro before after htokens ⟨rfl, hbefore⟩
    exact ⟨⟨before, _, after, htokens, .ret hword hvalue hend, rfl, hbefore⟩,
      ih (before ++ [word]) (us ++ after) (by simp [htokens]) trivial⟩
  | bareRet hword hend =>
    rintro before after htokens ⟨rfl, hbefore⟩
    exact ⟨before, _, after, htokens, .bareRet hword hend, rfl, hbefore⟩
  | @expr follow ts us first value hvalue hend ih =>
    rintro before after htokens ⟨rfl, hbefore⟩
    exact ⟨⟨before, _, after, htokens, .expr hvalue hend, rfl, hbefore⟩,
      ih before (us ++ after) (by simp [htokens]) trivial⟩
  | @moreStmts follow ts us first others hfirst _ ihfirst ihothers =>
    rintro before after htokens ⟨rfl, hbefore⟩
    refine ⟨ihfirst before (us ++ after) (by simp [htokens]) ⟨?_, hbefore⟩,
      ihothers (before ++ ts) after (by simp [htokens]) ⟨rfl, ?_⟩⟩
    · rw [firstKind_append]
    · exact not_endsWith_of_ne before hfirst.endsClosed

end Syntax

end BraceLang
