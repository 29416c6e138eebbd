import BraceLang.Proofs.Recovery.Segments
import BraceLang.Proofs.Render.Derived
import BraceLang.Proofs.Render.Scanned
import BraceLang.Tree.Equality

/-!
# Reading the text of a statement

A statement that was read from a source is written as a text that reads back as the
same statement, but for its places in the source (`parseSource_render`).

The tokens of a source are spelled as their kinds, so what is derived from them is
spelt (`Derives.spelt`).  Then its text scans as its spellings, and these derive it
again.
-/

namespace BraceLang

open Syntax Grammar

/-! ## Statements of a source are spelt -/

/-- The token, if it is legal, is spelled as its kind. -/
def Token.Spelt (token : Token) : Prop :=
  token.kind ≠ .illegal → Spelled token.kind token.text

theorem Token.Spelt.spelled {token : Token} {kind : TokenKind} (h : token.Spelt)
    (hkind : token.kind = kind) (hne : kind ≠ .illegal := by decide) : Spelled kind token.text := by
  subst hkind
  exact h hne

theorem Token.Spelt.spelling_eq {token : Token} {kind : TokenKind} {text : String}
    (h : token.Spelt) (hkind : token.kind = kind) (htext : kind.text? = some text) :
    token.spelling = (kind, text) := by
  have hne : kind ≠ .illegal := by
    intro heq
    subst heq
    cases htext
  rw [Token.spelling, hkind, text_eq_of_spelled htext (h.spelled hkind hne)]

theorem Token.Spelt.identifier {token : Token} (h : token.Spelt)
    (hkind : token.kind = .identifier) : Identifier.Spelt ⟨token, token.text⟩ := by
  refine ⟨?_, h.spelled hkind⟩
  rw [Token.spelling, hkind]
  rfl

namespace Syntax

/-- The trees of the symbol are spelt. -/
def Symbol.Spelt : (symbol : Symbol) → symbol.Tree → Prop
  | .expr _, expression => Expr.Everywhere spelt expression
  | .arguments, expressions | .moreArguments, expressions => Expr.EverywhereEach spelt expressions
  | .parameters, identifiers | .names, identifiers => ∀ name ∈ identifiers, name.Spelt
  | .block, read => Block.Everywhere spelt read
  | .stmt _, statement => Stmt.Everywhere spelt statement
  | .stmts _, statements => Stmt.EverywhereEach spelt statements

/-- What is derived from tokens that are spelt is spelt. -/
theorem Derives.spelt {symbol : Symbol} {ts : List Token} {tree : symbol.Tree}
    (h : Derives symbol ts tree) (hts : ∀ token ∈ ts, token.Spelt) : symbol.Spelt tree := by
  induction h with
  | @binary level ts us operator left right hkind _ _ ihleft ihright =>
    simp only [List.forall_mem_append, List.forall_mem_cons] at hts
    obtain ⟨hleft, hoperator, hright⟩ := hts
    have hne : operator.kind ≠ .illegal := fun heq => by
      have hextends : Extends operator.kind := .inl ⟨level, hkind⟩
      rw [heq] at hextends
      exact absurd hextends (by decide)
    exact ⟨⟨⟨level, hkind⟩, rfl, hoperator hne⟩, ihleft hleft, ihright hright⟩
  | tighter _ _ ih => exact ih hts
  | unary hkind _ ih =>
    simp only [List.forall_mem_cons] at hts
    obtain ⟨hoperator, hoperand⟩ := hts
    refine ⟨⟨hkind, rfl, hoperator fun heq => ?_⟩, ih hoperand⟩
    simp [heq] at hkind
  | call _ hparen _ _ ihcallee ihargs =>
    simp only [List.forall_mem_append, List.forall_mem_cons] at hts
    obtain ⟨hcallee, hparenSpelt, hargs, _⟩ := hts
    exact ⟨hparenSpelt.spelling_eq hparen rfl, ihcallee hcallee, ihargs hargs⟩
  | ident hkind => exact (hts _ List.mem_cons_self).identifier hkind
  | int hkind hvalue => exact ⟨hkind, (hts _ List.mem_cons_self).spelled hkind, hvalue⟩
  | str hkind => exact Prod.ext hkind rfl
  | true hkind => exact (hts _ List.mem_cons_self).spelling_eq hkind rfl
  | false hkind => exact (hts _ List.mem_cons_self).spelling_eq hkind rfl
  | group _ _ _ ih =>
    simp only [List.forall_mem_append, List.forall_mem_cons] at hts
    exact ih hts.2.1
  | cond hword _ _ ihcondition ihconsequence =>
    simp only [List.forall_mem_append, List.forall_mem_cons] at hts
    obtain ⟨hwordSpelt, hcondition, hconsequence⟩ := hts
    exact ⟨hwordSpelt.spelling_eq hword rfl, ihcondition hcondition, ihconsequence hconsequence⟩
  | condElse hword _ _ _ _ ihcondition ihconsequence ihalternative =>
    simp only [List.forall_mem_append, List.forall_mem_cons] at hts
    obtain ⟨hwordSpelt, hcondition, hconsequence, _, halternative⟩ := hts
    exact ⟨hwordSpelt.spelling_eq hword rfl, ihcondition hcondition, ihconsequence hconsequence,
      ihalternative halternative⟩
  | func hword _ _ _ _ ihnames ihbody =>
    simp only [List.forall_mem_append, List.forall_mem_cons] at hts
    obtain ⟨hwordSpelt, _, hnames, _, hbody⟩ := hts
    exact ⟨⟨hwordSpelt.spelling_eq hword rfl, ihnames hnames⟩, ihbody hbody⟩
  | noArguments => trivial
  | someArguments _ _ ihfirst ihothers =>
    simp only [List.forall_mem_append] at hts
    exact ⟨ihfirst hts.1, ihothers hts.2⟩
  | noMoreArguments => trivial
  | moreArguments _ _ _ ihfirst ihothers =>
    simp only [List.forall_mem_append, List.forall_mem_cons] at hts
    exact ⟨ihfirst hts.2.1, ihothers hts.2.2⟩
  | noParameters => exact fun _ hmem => absurd hmem List.not_mem_nil
  | someParameters _ ih => exact ih hts
  | lastName hkind =>
    exact List.forall_mem_singleton.2 ((hts _ List.mem_cons_self).identifier hkind)
  | moreNames hkind _ _ ih =>
    simp only [List.forall_mem_cons] at hts
    exact List.forall_mem_cons.2 ⟨hts.1.identifier hkind, ih hts.2.2⟩
  | block hbrace _ _ ih =>
    simp only [List.forall_mem_append, List.forall_mem_cons] at hts
    exact ⟨hts.1.spelling_eq hbrace rfl, ih hts.2.1⟩
  | bind hword hname _ _ _ ih =>
    simp only [List.forall_mem_append, List.forall_mem_cons] at hts
    obtain ⟨hwordSpelt, hnameSpelt, _, hvalue, _⟩ := hts
    exact ⟨⟨hwordSpelt.spelling_eq hword rfl, hnameSpelt.identifier hname⟩, ih hvalue⟩
  | ret hword _ _ ih =>
    simp only [List.forall_mem_append, List.forall_mem_cons] at hts
    obtain ⟨hwordSpelt, hvalue, _⟩ := hts
    exact ⟨hwordSpelt.spelling_eq hword rfl, ih hvalue⟩
  | bareRet hword _ => exact (hts _ List.mem_cons_self).spelling_eq hword rfl
  | expr _ _ ih =>
    rw [← List.cons_append, List.forall_mem_append] at hts
    exact ⟨trivial, ih hts.1⟩
  | noStmts => trivial
  | moreStmts _ _ ihfirst ihothers =>
    simp only [List.forall_mem_append] at hts
    exact ⟨ihfirst hts.1, ihothers hts.2⟩

end Syntax

/-- Each statement that turns give is derived from some of the tokens that were
left. -/
theorem exists_derives_of_mem_items {σ : Type} [TokenSource σ] {source : σ} {statement : Stmt}
    (h : Except.ok statement ∈ (items standard (Cursor.start source)).1) :
    ∃ follow ts, Derives (.stmt follow) ts statement ∧
      ∀ token ∈ ts, token ∈ (Cursor.start source).rest := by
  obtain ⟨segments, haccounts⟩ :=
    Recovery.exists_accounts (Cursor.start source) fun _ => Recovery.opens_start source
  rw [← haccounts.items_eq] at h
  obtain ⟨segment, hsegment, hitem⟩ := List.mem_map.1 h
  obtain ⟨before, after, hsegments⟩ := List.append_of_mem hsegment
  obtain ⟨_, _, haccounted⟩ := haccounts.each before segment after hsegments
  rw [Recovery.Segment.Accounted, hitem] at haccounted
  refine ⟨_, segment.tokens, haccounted, fun token htoken => ?_⟩
  rw [← haccounts.tokens_eq]
  exact List.mem_flatMap.2 ⟨segment, hsegment, htoken⟩

theorem spelt_of_mem_rest {scanner : Scanner} {token : Token}
    (h : token ∈ (Cursor.start scanner).rest) : token.Spelt := by
  have hne := Cursor.kind_ne_eof_of_mem_rest h
  have hmem := List.mem_append_left [(Cursor.start scanner).last] h
  rw [Cursor.rest_append_last_start] at hmem
  exact fun hillegal => Scanner.spelled_of_mem_tokens hmem hne hillegal

theorem spelt_of_mem_parseSource {source : String} {file : Option String} {statement : Stmt}
    (h : statement ∈ (parseSource source file).program.statements) :
    statement.Everywhere spelt := by
  rw [parseSource, parse_eq, mem_statementsOf] at h
  obtain ⟨follow, ts, hderives, hts⟩ := exists_derives_of_mem_items h
  exact hderives.spelt fun token htoken => spelt_of_mem_rest (hts token htoken)

/-! ## The text depends on no place -/

mutual

theorem Expr.render_erase : ∀ expression : Expr,
    (expression.erase .places).render = expression.render
  | .ident identifier => rfl
  | .int token value => rfl
  | .str token value => rfl
  | .bool token value => rfl
  | .unary token operator operand => by
    rw [Expr.erase, Expr.render, Expr.render, Expr.render_erase operand]
    rfl
  | .binary token operator left right => by
    rw [Expr.erase, Expr.render, Expr.render, Expr.render_erase left, Expr.render_erase right]
    rfl
  | .cond token condition consequence none => by
    rw [Expr.erase, Expr.render, Expr.render, Expr.render_erase condition,
      Block.render_erase consequence]
  | .cond token condition consequence (some alternative) => by
    rw [Expr.erase, Expr.render, Expr.render, Expr.render_erase condition,
      Block.render_erase consequence, Block.render_erase alternative]
  | .func token parameters body => by
    have hnames : (parameters.map (Identifier.erase .places)).map Identifier.name =
        parameters.map Identifier.name := by
      rw [List.map_map]
      rfl
    rw [Expr.erase, Expr.render, Expr.render, hnames, Block.render_erase body]
    rfl
  | .call token callee arguments => by
    rw [Expr.erase, Expr.render, Expr.render, Expr.render_erase callee,
      Expr.renderEach_erase arguments]

theorem Expr.renderEach_erase : ∀ expressions : List Expr,
    Expr.renderEach (Expr.eraseEach .places expressions) = Expr.renderEach expressions
  | [] => rfl
  | expression :: expressions => by
    rw [Expr.eraseEach, Expr.renderEach, Expr.renderEach, Expr.render_erase expression,
      Expr.renderEach_erase expressions]

theorem Stmt.render_erase : ∀ statement : Stmt,
    (statement.erase .places).render = statement.render
  | .bind token name value => by
    rw [Stmt.erase, Stmt.render, Stmt.render, Expr.render_erase value]
    rfl
  | .ret token none => rfl
  | .ret token (some value) => by
    rw [Stmt.erase, Stmt.render, Stmt.render, Expr.render_erase value]
    rfl
  | .expr token expression => by
    rw [Stmt.erase, Stmt.render, Stmt.render, Expr.render_erase expression]

theorem Stmt.renderEach_erase : ∀ statements : List Stmt,
    Stmt.renderEach (Stmt.eraseEach .places statements) = Stmt.renderEach statements
  | [] => rfl
  | statement :: statements => by
    rw [Stmt.eraseEach, Stmt.renderEach, Stmt.renderEach, Stmt.render_erase statement,
      Stmt.renderEach_erase statements]

theorem Block.render_erase : ∀ block : Block, (block.erase .places).render = block.render
  | ⟨token, body⟩ => by
    rw [Block.erase, Block.render, Block.render, Stmt.renderEach_erase body]

end

/-! ## Reading the text again -/

/-- The text of a statement that is spelt reads as the same statement. -/
theorem exists_reread {statement : Stmt} (hspelt : statement.Everywhere spelt)
    (hshown : statement.Everywhere shown) (hapart : statement.Everywhere apart)
    (file : Option String) :
    ∃ reread, parseSource statement.render file = ⟨⟨[reread]⟩, .empty⟩ ∧
      reread.erase .places = statement.erase .places := by
  have hscans : Scans statement.render.toList statement.spellings := by
    have h := statement.scans hspelt hshown closes_nil .nil
    rwa [List.append_nil, List.append_nil] at h
  have htokens : (TokenSource.tokens (Scanner.ofSource statement.render file)).map
      Token.spelling = statement.spellings ++ [(.eof, "EOF")] := hscans.tokens_eq rfl
  rw [← Cursor.rest_append_last_start, List.map_append] at htokens
  obtain ⟨hrest, _⟩ := List.append_inj' htokens rfl
  have hfollow : ∀ token expression, statement = .expr token expression → ¬ Extends .eof :=
    fun _ _ _ => by decide
  obtain ⟨reread, hderives, herase⟩ := statement.derives hspelt hapart hfollow hrest
  refine ⟨reread, ?_, herase⟩
  have hprogram : Derives (.stmts .eof) (_ ++ []) [reread] := .moreStmts hderives .noStmts
  rw [List.append_nil] at hprogram
  rw [parseSource, parse_eq, items_of_derives hprogram]
  rfl

/-- The text of a statement that was read from a source reads as the same statement,
up to its places in the source, and has the same text.  So two such statements with
one text are the same.

No string of the statement may hold a character that is written as its code point,
and in none of its blocks may an expression follow directly on another one whose
text begins with a parenthesis. -/
theorem parseSource_render {source : String} {file : Option String} {statement : Stmt}
    (h : statement ∈ (parseSource source file).program.statements)
    (hshown : statement.Everywhere shown) (hapart : statement.Everywhere apart) :
    (∀ file', ∃ reread, parseSource statement.render file' = ⟨⟨[reread]⟩, .empty⟩ ∧
        reread.erase .places = statement.erase .places ∧ reread.render = statement.render) ∧
      ∀ source' file' other, other ∈ (parseSource source' file').program.statements →
        other.Everywhere shown → other.Everywhere apart → other.render = statement.render →
          other.erase .places = statement.erase .places := by
  have hspelt := spelt_of_mem_parseSource h
  refine ⟨fun file' => ?_, fun source' file' other hother hotherShown hotherApart hrender => ?_⟩
  · obtain ⟨reread, hparse, herase⟩ := exists_reread hspelt hshown hapart file'
    refine ⟨reread, hparse, herase, ?_⟩
    rw [← reread.render_erase, herase, statement.render_erase]
  · obtain ⟨reread, hparse, herase⟩ := exists_reread hspelt hshown hapart none
    obtain ⟨reread', hparse', herase'⟩ :=
      exists_reread (spelt_of_mem_parseSource hother) hotherShown hotherApart none
    rw [hrender, hparse] at hparse'
    cases hparse'
    exact herase'.symm.trans herase

/-- A choice with two statements in its block, of which only the first is written with
a parenthesis in front. -/
theorem parseSource_render_choice :
    let token := fun kind text start stop => Token.mk kind text ⟨⟨start, "shell"⟩, ⟨stop, "shell"⟩⟩
    let name := fun text start stop => Expr.ident ⟨token .identifier text start stop, text⟩
    let word := token .ifWord "if" 0 2
    let sign := token .dash "-" 7 8
    let negated := Stmt.expr sign (.unary sign "-" (name "b" 8 9))
    let called := Stmt.expr (token .identifier "c" 11 12)
      (.call (token .openParen "(" 12 13) (name "c" 11 12) [.str (token .string "\n" 13 17) "\n"])
    let statement := Stmt.expr word
      (.cond word (name "a" 3 4) ⟨token .openCurly "\x7b" 5 6, [negated, called]⟩ none)
    statement ∈ (parseSource "if a \x7b -b; c(\"\\n\") \x7d" none).program.statements ∧
      statement.render = "if a \x7b (-b) c(\"\\n\") \x7d" ∧
      statement.Everywhere shown ∧ statement.Everywhere apart ∧
      ∃ reread, parseSource statement.render none = ⟨⟨[reread]⟩, .empty⟩ ∧
        reread.erase .places = statement.erase .places ∧ reread.render = statement.render := by
  intro token name word sign negated called statement
  have hmem : statement ∈
      (parseSource "if a \x7b -b; c(\"\\n\") \x7d" none).program.statements := by
    decide +kernel
  have hshown : statement.Everywhere shown := by
    simp [statement, negated, called, name, Stmt.Everywhere, Stmt.EverywhereEach, Expr.Everywhere,
      Expr.EverywhereEach, Block.Everywhere, shown]
    decide
  have hrow : Apart [negated, called] := by
    intro before _ _ _ _ _ heq
    cases before with
    | nil =>
      simp only [negated, called, List.nil_append, List.cons.injEq, Stmt.expr.injEq] at heq
      obtain ⟨_, ⟨_, rfl⟩, _⟩ := heq
      decide
    | cons first before =>
      have hlength := congrArg List.length heq
      simp only [List.length_cons, List.length_nil, List.length_append] at hlength
      omega
  have hapart : statement.Everywhere apart := by
    simp [statement, negated, called, name, Stmt.Everywhere, Stmt.EverywhereEach, Expr.Everywhere,
      Expr.EverywhereEach, Block.Everywhere, apart]
    exact hrow
  exact ⟨hmem, by decide, hshown, hapart, (parseSource_render hmem hshown hapart).1 none⟩

end BraceLang
