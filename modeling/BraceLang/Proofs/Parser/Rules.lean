import BraceLang.Proofs.Parser.Ensures

/-!
# What the rules ensure

One equation for each rule of the parser.  It says what has to be known of the
parts of the rule, in the order in which they are read, for the rule to ensure
something.  What holds of every run of the parser is proved from these equations
alone; no rule is unfolded again.

A choice that a rule makes by the kind of a token is a conjunction here, with the
kind as a hypothesis of each part.
-/

namespace BraceLang

/-- The power and the rule by which a token of `kind` goes on with an expression
above `floor`, if it does. -/
def Grammar.continuation (grammar : Grammar) (floor : BindingPower) (kind : TokenKind) :
    Option (BindingPower × TrailingRule) :=
  (grammar.trailing kind).filter fun entry => kind ≠ .semicolon ∧ floor < entry.1

theorem Grammar.continuation_eq_some {grammar : Grammar} {floor power : BindingPower}
    {kind : TokenKind} {rule : TrailingRule} :
    grammar.continuation floor kind = some (power, rule) ↔
      grammar.trailing kind = some (power, rule) ∧ kind ≠ .semicolon ∧ floor < power := by
  simp [continuation, Option.filter_eq_some_iff]

/-- What a token is as a literal, or why it is none. -/
def Token.literal (token : Token) : Except Cause Expr :=
  match token.kind with
  | .identifier => .ok (.ident ⟨token, token.text⟩)
  | .integer =>
    match Text.readInt64? token.text with
    | some value => .ok (.int token value)
    | none => .error (.notInteger token.text)
  | .string => .ok (.str token token.text)
  | .trueWord => .ok (.bool token true)
  | .falseWord => .ok (.bool token false)
  | kind => .error (.noExpression kind token.text)

namespace Descent

open BraceLang.Action

variable {σ : Type} [TokenSource σ] {d : Descent σ} {cursor : Cursor σ} {stopped : Prop}
  {bad : Diagnostic → Cursor σ → Prop}

/-! ## Leading rules -/

/-- A literal is read from the current token alone, and the cursor stays. -/
theorem ensures_literal {ok : Expr → Cursor σ → Prop} :
    (literal cursor).Ensures stopped ok bad ↔
      (∀ expression, cursor.current.literal = .ok expression → ok expression cursor) ∧
        ∀ cause, cursor.current.literal = .error cause →
          bad ⟨cause, cursor.current.start⟩ cursor := by
  simp only [literal, ensures_bind, ensures_current, Token.literal]
  cases hkind : cursor.current.kind with
  | integer =>
    cases hread : Text.readInt64? cursor.current.text <;> simp [ensures_refuse]
  | _ => simp [ensures_refuse]

theorem ensures_operator {ok : Expr → Cursor σ → Prop} :
    (d.operator cursor).Ensures stopped ok bad ↔
      (d.expr .unary cursor.advance).Ensures stopped
        (fun operand moved =>
          ok (.unary cursor.current cursor.current.text operand) moved) bad := by
  simp only [operator, ensures_bind, ensures_current, ensures_advance, ensures_pure]

theorem ensures_group {ok : Expr → Cursor σ → Prop} :
    (d.group cursor).Ensures stopped ok bad ↔
      (d.expr .default cursor.advance).Ensures stopped
        (fun inner moved =>
          (moved.peek.kind = .closeParen → ok inner moved.advance) ∧
            (moved.peek.kind ≠ .closeParen →
              bad (unexpected "grouped expression" .closeParen moved.peek) moved)) bad := by
  simp only [group, ensures_bind, ensures_advance, ensures_expect, ensures_pure]

theorem ensures_block {ok : Block → Cursor σ → Prop} :
    (d.block cursor).Ensures stopped ok bad ↔
      (d.stmts cursor.advance).Ensures stopped
        (fun body moved => ok ⟨cursor.current, body⟩ moved) bad := by
  simp only [block, ensures_bind, ensures_current, ensures_advance, ensures_pure]

theorem ensures_alternative {ok : Option Block → Cursor σ → Prop} :
    (d.alternative cursor).Ensures stopped ok bad ↔
      (cursor.peek.kind = .elseWord →
        (cursor.advance.peek.kind = .openCurly →
          (d.block cursor.advance.advance).Ensures stopped
            (fun body moved => ok (some body) moved) bad) ∧
        (cursor.advance.peek.kind ≠ .openCurly →
          bad (unexpected "else branch" .openCurly cursor.advance.peek) cursor.advance)) ∧
      (cursor.peek.kind ≠ .elseWord → ok none cursor) := by
  simp only [alternative, ensures_bind, ensures_peek]
  by_cases h : cursor.peek.kind = .elseWord
  · simp [h, ensures_bind, ensures_advance, ensures_expect]
  · simp [h]

theorem ensures_conditional {ok : Expr → Cursor σ → Prop} :
    (d.conditional cursor).Ensures stopped ok bad ↔
      (d.expr .default cursor.advance).Ensures stopped
        (fun condition tested =>
          (tested.peek.kind = .openCurly →
            (d.block tested.advance).Ensures stopped
              (fun consequence first =>
                (d.alternative first).Ensures stopped
                  (fun other moved =>
                    ok (.cond cursor.current condition consequence other) moved) bad) bad) ∧
          (tested.peek.kind ≠ .openCurly →
            bad (unexpected "if expression" .openCurly tested.peek) tested)) bad := by
  simp only [conditional, ensures_bind, ensures_current, ensures_advance, ensures_expect,
    ensures_pure]

theorem ensures_parameterList {ok : List Identifier → Cursor σ → Prop} :
    (d.parameterList cursor).Ensures stopped ok bad ↔
      (cursor.peek.kind = .closeParen → ok [] cursor.advance) ∧
      (cursor.peek.kind ≠ .closeParen →
        (d.parameters cursor).Ensures stopped
          (fun names moved =>
            (moved.peek.kind = .closeParen → ok names moved.advance) ∧
              (moved.peek.kind ≠ .closeParen →
                bad (unexpected "function parameters" .closeParen moved.peek) moved)) bad) := by
  simp only [parameterList, ensures_bind, ensures_peek]
  by_cases h : cursor.peek.kind = .closeParen
  · simp [h, ensures_bind, ensures_advance]
  · simp [h, ensures_bind, ensures_expect]

theorem ensures_function {ok : Expr → Cursor σ → Prop} :
    (d.function cursor).Ensures stopped ok bad ↔
      (cursor.peek.kind = .openParen →
        (d.parameterList cursor.advance).Ensures stopped
          (fun names listed =>
            (listed.peek.kind = .openCurly →
              (d.block listed.advance).Ensures stopped
                (fun body moved => ok (.func cursor.current names body) moved) bad) ∧
            (listed.peek.kind ≠ .openCurly →
              bad (unexpected "function body" .openCurly listed.peek) listed)) bad) ∧
      (cursor.peek.kind ≠ .openParen →
        bad (unexpected "function literal" .openParen cursor.peek) cursor) := by
  simp only [function, ensures_bind, ensures_current, ensures_expect, ensures_pure]

/-! ## Trailing rules -/

theorem ensures_binary {left : Expr} {floor : BindingPower} {ok : Expr → Cursor σ → Prop} :
    (d.binary left floor cursor).Ensures stopped ok bad ↔
      (d.expr floor cursor.advance).Ensures stopped
        (fun right moved =>
          ok (.binary cursor.current cursor.current.text left right) moved) bad := by
  simp only [binary, ensures_bind, ensures_current, ensures_advance, ensures_pure]

theorem ensures_argumentList {ok : List Expr → Cursor σ → Prop} :
    (d.argumentList cursor).Ensures stopped ok bad ↔
      (cursor.peek.kind = .closeParen → ok [] cursor.advance) ∧
      (cursor.peek.kind ≠ .closeParen →
        (d.expr .default cursor.advance).Ensures stopped
          (fun first one =>
            (d.arguments one).Ensures stopped
              (fun others moved =>
                (moved.peek.kind = .closeParen → ok (first :: others) moved.advance) ∧
                  (moved.peek.kind ≠ .closeParen →
                    bad (unexpected "call arguments" .closeParen moved.peek) moved)) bad)
          bad) := by
  simp only [argumentList, ensures_bind, ensures_peek]
  by_cases h : cursor.peek.kind = .closeParen
  · simp [h, ensures_bind, ensures_advance]
  · simp [h, ensures_bind, ensures_advance, ensures_expect]

theorem ensures_call {callee : Expr} {ok : Expr → Cursor σ → Prop} :
    (d.call callee cursor).Ensures stopped ok bad ↔
      (d.argumentList cursor).Ensures stopped
        (fun arguments moved => ok (.call cursor.current callee arguments) moved) bad := by
  simp only [call, ensures_bind, ensures_current, ensures_pure]

/-! ## Expressions -/

theorem ensures_exprStep {grammar : Grammar} {floor : BindingPower}
    {ok : Expr → Cursor σ → Prop} :
    (exprStep grammar d floor cursor).Ensures stopped ok bad ↔
      (∀ rule, grammar.leading cursor.current.kind = some rule →
        (d.lead rule cursor).Ensures stopped
          (fun left moved => (d.chain floor left moved).Ensures stopped ok bad) bad) ∧
      (grammar.leading cursor.current.kind = none →
        bad ⟨.noExpression cursor.current.kind cursor.current.text, cursor.current.start⟩
          cursor) := by
  simp only [exprStep, ensures_bind, ensures_current]
  cases grammar.leading cursor.current.kind with
  | none => simp [ensures_refuse]
  | some rule => simp [ensures_bind]

theorem ensures_chainStep {grammar : Grammar} {floor : BindingPower} {left : Expr}
    {ok : Expr → Cursor σ → Prop} :
    (chainStep grammar d floor left cursor).Ensures stopped ok bad ↔
      (∀ power rule, grammar.continuation floor cursor.peek.kind = some (power, rule) →
        (d.trail left power rule cursor.advance).Ensures stopped
          (fun longer moved => (d.chain floor longer moved).Ensures stopped ok bad) bad) ∧
      (grammar.continuation floor cursor.peek.kind = none → ok left cursor) := by
  simp only [chainStep, Grammar.continuation, ensures_bind, ensures_peek]
  cases grammar.trailing cursor.peek.kind with
  | none => simp
  | some entry =>
    obtain ⟨power, rule⟩ := entry
    by_cases h : cursor.peek.kind ≠ .semicolon ∧ floor < power
    · simp [h, ensures_bind, ensures_advance, Option.filter]
    · simp [h, Option.filter]

theorem ensures_parametersStep {ok : List Identifier → Cursor σ → Prop} :
    (parametersStep d cursor).Ensures stopped ok bad ↔
      (cursor.peek.kind = .identifier →
        (cursor.advance.peek.kind = .comma →
          (d.parameters cursor.advance.advance).Ensures stopped
            (fun others moved => ok (⟨cursor.peek, cursor.peek.text⟩ :: others) moved) bad) ∧
        (cursor.advance.peek.kind ≠ .comma →
          ok [⟨cursor.peek, cursor.peek.text⟩] cursor.advance)) ∧
      (cursor.peek.kind ≠ .identifier →
        bad (unexpected "function parameters" .identifier cursor.peek) cursor) := by
  simp only [parametersStep, ensures_bind, ensures_expect, ensures_peek]
  by_cases h : cursor.advance.peek.kind = .comma
  · simp [h, ensures_bind, ensures_advance]
  · simp [h]

theorem ensures_argumentsStep {ok : List Expr → Cursor σ → Prop} :
    (argumentsStep d cursor).Ensures stopped ok bad ↔
      (cursor.peek.kind = .comma →
        (d.expr .default cursor.advance.advance).Ensures stopped
          (fun argument one =>
            (d.arguments one).Ensures stopped
              (fun others moved => ok (argument :: others) moved) bad) bad) ∧
      (cursor.peek.kind ≠ .comma → ok [] cursor) := by
  simp only [argumentsStep, ensures_bind, ensures_peek]
  by_cases h : cursor.peek.kind = .comma
  · simp [h, ensures_bind, ensures_advance]
  · simp [h]

/-! ## Statements -/

theorem ensures_binding {ok : Stmt → Cursor σ → Prop} :
    (d.binding cursor).Ensures stopped ok bad ↔
      (cursor.peek.kind = .identifier →
        (cursor.advance.peek.kind = .assignment →
          (d.expr .default cursor.advance.advance.advance).Ensures stopped
            (fun value moved =>
              ok (.bind cursor.current ⟨cursor.peek, cursor.peek.text⟩ value)
                (moved.skipOptional .semicolon)) bad) ∧
        (cursor.advance.peek.kind ≠ .assignment →
          bad (unexpected "let statement" .assignment cursor.advance.peek) cursor.advance)) ∧
      (cursor.peek.kind ≠ .identifier →
        bad (unexpected "let statement" .identifier cursor.peek) cursor) := by
  simp only [binding, ensures_bind, ensures_current, ensures_expect, ensures_advance,
    ensures_skipOptional, ensures_pure]

theorem ensures_result {ok : Stmt → Cursor σ → Prop} :
    (d.result cursor).Ensures stopped ok bad ↔
      (endsBareResult cursor.peek.kind = true →
        ok (.ret cursor.current none) (cursor.skipOptional .semicolon)) ∧
      (endsBareResult cursor.peek.kind = false →
        (d.expr .default cursor.advance).Ensures stopped
          (fun value moved =>
            ok (.ret cursor.current (some value)) (moved.skipOptional .semicolon)) bad) := by
  simp only [result, resultValue, ensures_bind, ensures_current, ensures_peek,
    ensures_skipOptional, ensures_pure]
  cases h : endsBareResult cursor.peek.kind with
  | true => simp
  | false => simp [ensures_bind, ensures_advance]

theorem ensures_expression {ok : Stmt → Cursor σ → Prop} :
    (d.expression cursor).Ensures stopped ok bad ↔
      (d.expr .default cursor).Ensures stopped
        (fun value moved =>
          ok (.expr cursor.current value) (moved.skipOptional .semicolon)) bad := by
  simp only [expression, ensures_bind, ensures_current, ensures_skipOptional, ensures_pure]

theorem ensures_strictResult {ok : Stmt → Cursor σ → Prop} :
    (d.strictResult cursor).Ensures stopped ok bad ↔
      (d.expr .default cursor.advance).Ensures stopped
        (fun value moved =>
          ok (.ret cursor.current (some value)) (moved.skipOptional .semicolon)) bad := by
  simp only [strictResult, ensures_bind, ensures_current, ensures_advance,
    ensures_skipOptional, ensures_pure]

theorem ensures_bareBlock {ok : Stmt → Cursor σ → Prop} :
    (d.bareBlock cursor).Ensures stopped ok bad ↔
      (d.block cursor).Ensures stopped
        (fun body moved =>
          ok (.expr cursor.current (.func cursor.current [] body))
            (moved.skipOptional .semicolon)) bad := by
  simp only [bareBlock, ensures_bind, ensures_current, ensures_skipOptional, ensures_pure]

theorem ensures_stmtStep {grammar : Grammar} {ok : Stmt → Cursor σ → Prop} :
    (stmtStep grammar d cursor).Ensures stopped ok bad ↔
      (∀ rule, grammar.statement cursor.current.kind = some rule →
        (d.statement rule cursor).Ensures stopped ok bad) ∧
      (grammar.statement cursor.current.kind = none →
        (d.expression cursor).Ensures stopped ok bad) := by
  simp only [stmtStep, ensures_bind, ensures_current]
  cases grammar.statement cursor.current.kind <;> simp

theorem ensures_stmtsStep {ok : List Stmt → Cursor σ → Prop} :
    (stmtsStep d cursor).Ensures stopped ok bad ↔
      (cursor.current.kind = .closeCurly → ok [] cursor) ∧
      (cursor.current.kind = .eof →
        bad (unexpected "block" .closeCurly cursor.current) cursor) ∧
      (cursor.current.kind ≠ .closeCurly → cursor.current.kind ≠ .eof →
        (d.stmt cursor).Ensures stopped
          (fun first moved =>
            (d.stmts moved.advance).Ensures stopped
              (fun others last => ok (first :: others) last) bad) bad) := by
  simp only [stmtsStep, ensures_bind, ensures_current]
  by_cases hclose : cursor.current.kind = .closeCurly
  · simp [hclose]
  · by_cases hend : cursor.current.kind = .eof
    · simp [hend, ensures_refuse, unexpected]
    · simp [hclose, hend, ensures_bind, ensures_advance]

end Descent

end BraceLang
