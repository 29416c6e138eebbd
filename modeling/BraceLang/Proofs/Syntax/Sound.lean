import BraceLang.Proofs.Parser.Fuel
import BraceLang.Proofs.Parser.Path
import BraceLang.Proofs.Syntax.Standard

/-!
# What the parser reads is derived

Whatever an entry point of the standard grammar gives, the tokens that it has
taken derive it (`descent_sound`).

An expression above a floor has the level of that floor, and the token behind it
does not bind stronger (`Above`).  The loop over the trailing rules keeps one
invariant, `CanGoOn`: the power of the next token is at most one rank above the
level of the expression so far.  So every operator that is taken finds a left
operand of its own level.
-/

namespace BraceLang.Syntax

open Grammar Descent TokenKind

variable {σ : Type} [TokenSource σ] {start middle cursor moved : Cursor σ}
  {ts us : List Token} {symbol : Symbol} {tree : symbol.Tree}

/-! ## Readings with a tree -/

/-- The tokens from `start` through `cursor` derive the tree. -/
def Finds (start : Cursor σ) (symbol : Symbol) (tree : symbol.Tree) (cursor : Cursor σ) : Prop :=
  ∃ ts, start.Reads ts cursor ∧ Derives symbol ts tree

/-- The tokens from `start` up to, and without, the current one of `cursor` derive
the tree. -/
def FindsBefore (start : Cursor σ) (symbol : Symbol) (tree : symbol.Tree)
    (cursor : Cursor σ) : Prop :=
  ∃ ts, start.Passes (fun place => place.current.kind ≠ .eof) ts cursor ∧
    Derives symbol ts tree

/-- From `start` through `cursor` stands an expression of the level of `floor`, and
the next token does not go on with it above `floor`. -/
structure Above (start : Cursor σ) (floor : BindingPower) (expression : Expr)
    (cursor : Cursor σ) : Prop where
  finds : Finds start (.expr (min floor.rank 5)) expression cursor
  stops : standard.continuation floor cursor.peek.kind = none

/-- From `start` through `cursor` stands an expression that can be the left operand
of the next token, if that binds stronger than `floor`. -/
def CanGoOn (start : Cursor σ) (floor : BindingPower) (expression : Expr)
    (cursor : Cursor σ) : Prop :=
  ∃ level, Finds start (.expr level) expression cursor ∧ min floor.rank 5 ≤ level ∧ level ≤ 7 ∧
    (standard.power cursor.peek.kind).rank ≤ level + 1

theorem Finds.single (hne : start.current.kind ≠ .eof)
    (h : Derives symbol [start.current] tree) : Finds start symbol tree start :=
  ⟨_, .last start hne, h⟩

theorem Above.expr {expression : Expr} (h : Above start .default expression cursor) :
    Finds start (.expr 0) expression cursor :=
  h.finds

/-- What stands between two tokens. -/
theorem FindsBefore.reads (h : FindsBefore start.advance symbol tree cursor)
    (hstart : start.current.kind ≠ .eof) (hcursor : cursor.current.kind ≠ .eof) :
    ∃ ts, start.Reads (start.current :: (ts ++ [cursor.current])) cursor ∧
      Derives symbol ts tree := by
  obtain ⟨ts, hpasses, hderives⟩ := h
  exact ⟨ts, .more hstart (hpasses.reads (fun _ => id) hcursor), hderives⟩

/-- The end of a statement, which is one semicolon or nothing. -/
theorem exists_end (Ends : TokenKind → List Token → Prop)
    (hsemicolon : ∀ follow token, token.kind = .semicolon → Ends follow [token])
    (homitted : Ends cursor.peek.kind []) (h : start.Reads ts cursor) :
    ∃ us, start.Reads (ts ++ us) (cursor.skipOptional .semicolon) ∧
      Ends (cursor.skipOptional .semicolon).peek.kind us := by
  by_cases hkind : cursor.peek.kind = .semicolon
  · rw [Cursor.skipOptional, if_pos hkind]
    exact ⟨[cursor.peek], h.snoc (ne_eof_of_eq hkind (by decide)), hsemicolon _ _ hkind⟩
  · rw [Cursor.skipOptional, if_neg hkind]
    refine ⟨[], ?_, homitted⟩
    rw [List.append_nil]
    exact h

/-- The end of a statement that ends with an expression. -/
theorem exists_terminator (h : start.Reads ts cursor)
    (hstops : standard.continuation .default cursor.peek.kind = none) :
    ∃ us, start.Reads (ts ++ us) (cursor.skipOptional .semicolon) ∧
      Terminator (cursor.skipOptional .semicolon).peek.kind us :=
  exists_end Terminator (fun _ => .semicolon) (.omitted (not_extends_of_continuation hstops)) h

/-- The end of a result without a value. -/
theorem exists_bareTerminator (h : start.Reads ts cursor)
    (hends : endsBareResult cursor.peek.kind = true) :
    ∃ us, start.Reads (ts ++ us) (cursor.skipOptional .semicolon) ∧
      BareTerminator (cursor.skipOptional .semicolon).peek.kind us := by
  have hkinds : cursor.peek.kind = .semicolon ∨ cursor.peek.kind = .closeCurly ∨
      cursor.peek.kind = .eof := by
    simpa [endsBareResult, or_assoc] using hends
  exact exists_end BareTerminator (fun _ => .semicolon) (.omitted hkinds) h

theorem firstKind_of_passes {P : Cursor σ → Prop} (h : start.Passes P ts cursor) :
    firstKind ts cursor.current.kind = start.current.kind := by
  cases h <;> rfl

/-! ## Rules -/

/-- Whatever the entry points of `d` give is derived. -/
structure Sound (d : Descent σ) : Prop where
  expr : ∀ (floor : BindingPower) (cursor : Cursor σ), floor.rank ≤ 6 →
    (d.expr floor cursor).Gives (Above cursor floor)
  chain : ∀ (floor : BindingPower) (left : Expr) (start cursor : Cursor σ),
    CanGoOn start floor left cursor → (d.chain floor left cursor).Gives (Above start floor)
  stmt : ∀ cursor : Cursor σ, (d.stmt cursor).Gives fun statement moved =>
    Finds cursor (.stmt moved.peek.kind) statement moved
  stmts : ∀ cursor : Cursor σ, (d.stmts cursor).Gives fun body moved =>
    FindsBefore cursor (.stmts .closeCurly) body moved ∧ moved.current.kind = .closeCurly
  parameters : ∀ cursor : Cursor σ, (d.parameters cursor).Gives fun names moved =>
    Finds cursor.advance .names names moved
  arguments : ∀ cursor : Cursor σ, (d.arguments cursor).Gives fun others moved =>
    FindsBefore cursor.advance .moreArguments others moved.advance

namespace Sound

variable {d : Descent σ}

theorem block (hd : Sound d) (cursor : Cursor σ) (hbrace : cursor.current.kind = .openCurly) :
    (d.block cursor).Gives (Finds cursor .block) := by
  apply ensures_block.2
  apply (hd.stmts cursor.advance).imp
  intro body moved hbody
  obtain ⟨hfinds, hclose⟩ := hbody
  have hne : cursor.current.kind ≠ .eof := ne_eof_of_eq hbrace (by decide)
  obtain ⟨ts, hreads, hderives⟩ := hfinds.reads hne (ne_eof_of_eq hclose (by decide))
  exact ⟨_, hreads, .block hbrace hderives hclose⟩

theorem group (hd : Sound d) (hparen : cursor.current.kind = .openParen) :
    (d.group cursor).Gives (Finds cursor (.expr 7)) := by
  apply ensures_group.2
  apply (hd.expr .default cursor.advance (by decide)).imp
  intro inner moved hinner
  refine ⟨fun hclose => ?_, fun _ => trivial⟩
  obtain ⟨ts, hreads, hderives⟩ := hinner.expr
  refine ⟨cursor.current :: (ts ++ [moved.peek]), ?_, .group hparen hderives hclose⟩
  exact .more (ne_eof_of_eq hparen (by decide)) (hreads.snoc (ne_eof_of_eq hclose (by decide)))

theorem conditional (hd : Sound d) (hword : cursor.current.kind = .ifWord) :
    (d.conditional cursor).Gives (Finds cursor (.expr 7)) := by
  have hne : cursor.current.kind ≠ .eof := ne_eof_of_eq hword (by decide)
  apply ensures_conditional.2
  apply (hd.expr .default cursor.advance (by decide)).imp
  intro condition tested hcondition
  obtain ⟨ts, hts, hcondition⟩ := hcondition.expr
  refine ⟨fun hopen => ?_, fun _ => trivial⟩
  apply (hd.block tested.advance hopen).imp
  intro consequence first hconsequence
  obtain ⟨us, hus, hconsequence⟩ := hconsequence
  refine ensures_alternative.2 ⟨fun hother => ⟨fun hbrace => ?_, fun _ => trivial⟩, fun _ => ?_⟩
  · apply (hd.block first.advance.advance hbrace).imp
    intro alternative moved halternative
    obtain ⟨vs, hvs, halternative⟩ := halternative
    refine ⟨cursor.current :: (ts ++ (us ++ first.advance.current :: vs)),
      .more hne (hts.append (hus.append ?_)),
      .condElse hword hcondition hconsequence hother halternative⟩
    exact .more (ne_eof_of_eq hother (by decide)) hvs
  · exact ⟨cursor.current :: (ts ++ us), .more hne (hts.append hus),
      .cond hword hcondition hconsequence⟩

/-- The parameters of a function, through the closing parenthesis. -/
theorem parameterList (hd : Sound d) (cursor : Cursor σ)
    (hparen : cursor.current.kind = .openParen) :
    (d.parameterList cursor).Gives fun names moved =>
      ∃ ts, cursor.Reads (cursor.current :: (ts ++ [moved.current])) moved ∧
        Derives .parameters ts names ∧ moved.current.kind = .closeParen := by
  have hne : cursor.current.kind ≠ .eof := ne_eof_of_eq hparen (by decide)
  refine ensures_parameterList.2 ⟨fun hclose => ?_, fun _ => ?_⟩
  · exact ⟨[], .more hne (.last _ (ne_eof_of_eq hclose (by decide))),
      .noParameters, hclose⟩
  · apply (hd.parameters cursor).imp
    intro names moved hnames
    obtain ⟨ts, hts, hnames⟩ := hnames
    refine ⟨fun hclose => ?_, fun _ => trivial⟩
    exact ⟨ts, .more hne (hts.snoc (ne_eof_of_eq hclose (by decide))), .someParameters hnames,
      hclose⟩

theorem function (hd : Sound d) (hword : cursor.current.kind = .fnWord) :
    (d.function cursor).Gives (Finds cursor (.expr 7)) := by
  refine ensures_function.2 ⟨fun hparen => ?_, fun _ => trivial⟩
  apply (hd.parameterList cursor.advance hparen).imp
  intro names listed hnames
  obtain ⟨ts, hts, hnames, hclose⟩ := hnames
  refine ⟨fun hopen => ?_, fun _ => trivial⟩
  apply (hd.block listed.advance hopen).imp
  intro body moved hbody
  obtain ⟨us, hus, hbody⟩ := hbody
  refine ⟨cursor.current :: cursor.peek :: (ts ++ listed.current :: us),
    .more (ne_eof_of_eq hword (by decide)) ?_,
    .func hword hparen hnames hclose hbody⟩
  have hreads := hts.append hus
  rw [List.cons_append, List.append_assoc] at hreads
  exact hreads

/-- What a leading rule gives can be an operand. -/
theorem lead (hd : Sound d) {rule : LeadingRule} (floor : BindingPower)
    (hrule : standard.leading cursor.current.kind = some rule) :
    (d.lead rule cursor).Gives (CanGoOn cursor floor) := by
  have hne : cursor.current.kind ≠ .eof := (Ruled.leading hrule).ne.1
  have hled := leading_eq_some_iff.1 hrule
  have hprimary : ∀ expression moved, Finds cursor (.expr 7) expression moved →
      CanGoOn cursor floor expression moved := fun expression moved h =>
    ⟨7, h, by omega, by omega, Nat.le_succ_of_le (rank_le_seven _)⟩
  cases rule with
  | literal =>
    refine ensures_literal.2 ⟨fun expression hliteral => ?_, fun _ _ => trivial⟩
    exact hprimary _ _ (.single hne (derives_of_literal hliteral))
  | operator =>
    apply ensures_operator.2
    apply (hd.expr .unary cursor.advance (by decide)).imp
    intro operand moved hoperand
    obtain ⟨ts, hts, hderives⟩ := hoperand.finds
    refine ⟨5, ⟨_, .more hne hts, .unary hled hderives⟩, by omega, by omega, ?_⟩
    exact rank_power_le_of_continuation hoperand.stops
  | group => exact (hd.group hled).imp hprimary
  | conditional => exact (hd.conditional hled).imp hprimary
  | function => exact (hd.function hled).imp hprimary

/-- The arguments of a call, through the closing parenthesis. -/
theorem argumentList (hd : Sound d) (cursor : Cursor σ)
    (hparen : cursor.current.kind = .openParen) :
    (d.argumentList cursor).Gives fun arguments moved =>
      ∃ ts, cursor.Reads (cursor.current :: (ts ++ [moved.current])) moved ∧
        Derives .arguments ts arguments ∧ moved.current.kind = .closeParen := by
  have hne : cursor.current.kind ≠ .eof := ne_eof_of_eq hparen (by decide)
  refine ensures_argumentList.2 ⟨fun hclose => ?_, fun _ => ?_⟩
  · exact ⟨[], .more hne (.last _ (ne_eof_of_eq hclose (by decide))), .noArguments, hclose⟩
  · apply (hd.expr .default cursor.advance (by decide)).imp
    intro first one hfirst
    obtain ⟨ts, hts, hfirst⟩ := hfirst.expr
    refine (hd.arguments one).imp fun others moved hothers => ⟨fun hclose => ?_, fun _ => trivial⟩
    obtain ⟨us, hus, hothers⟩ := hothers
    refine ⟨ts ++ us, .more hne ?_, .someArguments hfirst hothers, hclose⟩
    exact (hts.passes.trans hus).reads (fun _ => id) (ne_eof_of_eq hclose (by decide))

/-- A trailing rule that binds stronger than `floor` leaves an expression that can
go on above `floor`. -/
theorem trail (hd : Sound d) {floor power : BindingPower} {rule : TrailingRule} {left : Expr}
    (hleft : CanGoOn start floor left cursor)
    (hrule : standard.continuation floor cursor.peek.kind = some (power, rule)) :
    (d.trail left power rule cursor.advance).Gives (CanGoOn start floor) := by
  obtain ⟨level, ⟨ts, hts, hleft⟩, hfloor, hseven, hpower⟩ := hleft
  obtain ⟨htrailing, _, hlt⟩ := continuation_eq_some.1 hrule
  have hstronger : floor.rank < power.rank := hlt
  rw [Grammar.power, htrailing] at hpower
  simp only at hpower
  rcases trailing_cases htrailing with ⟨level', hfive, hmem, hrank, rfl⟩ | ⟨hparen, rfl, rfl⟩
  · apply ensures_binary.2
    apply (hd.expr power cursor.advance.advance (by omega)).imp
    intro right moved hright
    have hstops := rank_power_le_of_continuation hright.stops
    obtain ⟨us, hus, hderives⟩ := hright.finds
    rw [hrank, Nat.min_eq_left (by omega)] at hderives
    refine ⟨level', ⟨_, hts.append (.more (Ruled.trailing htrailing).ne.1 hus), ?_⟩,
      by omega, by omega,
      by omega⟩
    exact .binary hmem (hleft.loosen (by omega) hseven) hderives
  · apply ensures_call.2
    apply (hd.argumentList cursor.advance hparen).imp
    intro arguments moved harguments
    obtain ⟨us, hus, harguments, hclose⟩ := harguments
    refine ⟨6, ⟨_, hts.append hus, .call (hleft.loosen ?_ hseven) hparen harguments hclose⟩,
      by omega,
      by omega, rank_le_seven _⟩
    simp only [BindingPower.rank] at hpower
    omega

/-! ## One step -/

theorem exprStep (hd : Sound d) (floor : BindingPower) :
    (exprStep standard d floor cursor).Gives (Above cursor floor) := by
  refine ensures_exprStep.2 ⟨fun rule hrule => ?_, fun _ => trivial⟩
  exact (hd.lead floor hrule).imp fun left moved hleft => hd.chain floor left cursor moved hleft

theorem chainStep (hd : Sound d) {floor : BindingPower} {left : Expr}
    (hleft : CanGoOn start floor left cursor) :
    (chainStep standard d floor left cursor).Gives (Above start floor) := by
  refine ensures_chainStep.2 ⟨fun power rule hrule => ?_, fun hstops => ?_⟩
  · exact (hd.trail hleft hrule).imp fun longer moved hlonger =>
      hd.chain floor longer start moved hlonger
  · obtain ⟨level, ⟨ts, hts, hderives⟩, hfloor, hseven, _⟩ := hleft
    exact ⟨⟨ts, hts, hderives.loosen hfloor hseven⟩, hstops⟩

theorem expression (hd : Sound d) : (d.expression cursor).Gives fun statement moved =>
    Finds cursor (.stmt moved.peek.kind) statement moved := by
  apply ensures_expression.2
  apply (hd.expr .default cursor (by decide)).imp
  intro value moved hvalue
  obtain ⟨ts, hts, hderives⟩ := hvalue.expr
  obtain ⟨us, hus, hend⟩ := exists_terminator hts hvalue.stops
  cases hts with
  | last _ hne => exact ⟨_, hus, .expr hderives hend⟩
  | more hne hmore => exact ⟨_, hus, .expr hderives hend⟩

theorem binding (hd : Sound d) (hword : cursor.current.kind = .letWord) :
    (d.binding cursor).Gives fun statement moved =>
      Finds cursor (.stmt moved.peek.kind) statement moved := by
  refine ensures_binding.2 ⟨fun hname => ⟨fun hsign => ?_, fun _ => trivial⟩, fun _ => trivial⟩
  apply (hd.expr .default _ (by decide)).imp
  intro value moved hvalue
  obtain ⟨ts, hts, hderives⟩ := hvalue.expr
  have hreads : cursor.Reads (cursor.current :: cursor.peek :: cursor.advance.peek :: ts) moved :=
    .more (ne_eof_of_eq hword (by decide)) (.more (ne_eof_of_eq hname (by decide))
      (.more (ne_eof_of_eq hsign (by decide)) hts))
  obtain ⟨us, hus, hend⟩ := exists_terminator hreads hvalue.stops
  exact ⟨_, hus, .bind hword hname hsign hderives hend⟩

theorem result (hd : Sound d) (hword : cursor.current.kind = .returnWord) :
    (d.result cursor).Gives fun statement moved =>
      Finds cursor (.stmt moved.peek.kind) statement moved := by
  have hne : cursor.current.kind ≠ .eof := ne_eof_of_eq hword (by decide)
  refine ensures_result.2 ⟨fun hends => ?_, fun _ => ?_⟩
  · obtain ⟨us, hus, hend⟩ := exists_bareTerminator (.last cursor hne) hends
    exact ⟨_, hus, .bareRet hword hend⟩
  · apply (hd.expr .default cursor.advance (by decide)).imp
    intro value moved hvalue
    obtain ⟨ts, hts, hderives⟩ := hvalue.expr
    obtain ⟨us, hus, hend⟩ := exists_terminator (.more hne hts) hvalue.stops
    exact ⟨_, hus, .ret hword hderives hend⟩

theorem stmtStep (hd : Sound d) : (stmtStep standard d cursor).Gives fun statement moved =>
    Finds cursor (.stmt moved.peek.kind) statement moved := by
  refine ensures_stmtStep.2 ⟨fun rule hrule => ?_, fun _ => hd.expression⟩
  rcases statement_cases hrule with ⟨hword, rfl⟩ | ⟨hword, rfl⟩
  · exact hd.binding hword
  · exact hd.result hword

theorem stmtsStep (hd : Sound d) : (stmtsStep d cursor).Gives fun body moved =>
    FindsBefore cursor (.stmts .closeCurly) body moved ∧ moved.current.kind = .closeCurly := by
  refine ensures_stmtsStep.2 ⟨fun hclose => ?_, fun _ => trivial, fun _ _ => ?_⟩
  · exact ⟨⟨[], .here cursor, .noStmts⟩, hclose⟩
  · apply (hd.stmt cursor).imp
    intro first moved hfirst
    obtain ⟨ts, hts, hfirst⟩ := hfirst
    apply (hd.stmts moved.advance).imp
    intro others last hothers
    obtain ⟨⟨us, hus, hothers⟩, hclose⟩ := hothers
    have hfollow : firstKind us .closeCurly = moved.peek.kind := by
      rw [← hclose]
      exact firstKind_of_passes hus
    rw [← hfollow] at hfirst
    exact ⟨⟨ts ++ us, hts.passes.trans hus, .moreStmts hfirst hothers⟩, hclose⟩

theorem parametersStep (hd : Sound d) : (parametersStep d cursor).Gives fun names moved =>
    Finds cursor.advance .names names moved := by
  refine ensures_parametersStep.2 ⟨fun hname => ⟨fun hcomma => ?_, fun _ => ?_⟩, fun _ => trivial⟩
  · apply (hd.parameters cursor.advance.advance).imp
    intro others moved hothers
    obtain ⟨ts, hts, hothers⟩ := hothers
    refine ⟨cursor.advance.current :: cursor.advance.peek :: ts, ?_,
      .moreNames hname hcomma hothers⟩
    exact .more (ne_eof_of_eq hname (by decide)) (.more (ne_eof_of_eq hcomma (by decide)) hts)
  · exact ⟨[cursor.advance.current], .last _ (ne_eof_of_eq hname (by decide)), .lastName hname⟩

theorem argumentsStep (hd : Sound d) : (argumentsStep d cursor).Gives fun others moved =>
    FindsBefore cursor.advance .moreArguments others moved.advance := by
  refine ensures_argumentsStep.2 ⟨fun hcomma => ?_, fun _ => ⟨[], .here _, .noMoreArguments⟩⟩
  apply (hd.expr .default cursor.advance.advance (by decide)).imp
  intro argument one hargument
  obtain ⟨ts, hts, hargument⟩ := hargument.expr
  apply (hd.arguments one).imp
  intro others moved hothers
  obtain ⟨us, hus, hothers⟩ := hothers
  refine ⟨cursor.advance.current :: (ts ++ us), ?_, .moreArguments hcomma hargument hothers⟩
  exact .on (ne_eof_of_eq hcomma (by decide)) (hts.passes.trans hus)

theorem step (hd : Sound d) : Sound (Descent.step standard d) where
  expr floor _ _ := hd.exprStep floor
  chain _ _ _ _ hleft := hd.chainStep hleft
  stmt _ := hd.stmtStep
  stmts _ := hd.stmtsStep
  parameters _ := hd.parametersStep
  arguments _ := hd.argumentsStep

end Sound

/-- Whatever the parser gives is derived. -/
theorem descent_sound (fuel : Nat) : Sound (descent standard fuel : Descent σ) := by
  induction fuel with
  | zero => constructor <;> intros <;> trivial
  | succ fuel ih =>
    rw [descent_succ]
    exact ih.step

/-- A statement that the parser gives is derived from the tokens it has taken. -/
theorem finds_of_stmt_ok {statement : Stmt}
    (h : (reader standard).stmt cursor = .ok statement moved) :
    Finds cursor (.stmt moved.peek.kind) statement moved := by
  have hsound := (descent_sound cursor.fuel).stmt cursor
  rw [show (descent standard cursor.fuel).stmt cursor = .ok statement moved from h] at hsound
  exact hsound

end BraceLang.Syntax
