import BraceLang.Grammar.Basic
import BraceLang.Parser.Action
import BraceLang.Text.Numeral
import BraceLang.Tree.Basic

/-!
# Recursive descent

An expression begins with the leading rule of its first token and goes on with
the trailing rules of the tokens that follow, as long as these bind stronger than
a *floor*: the power of the operator whose operand it is.  Expressions hold
blocks, blocks hold statements, and statements hold expressions.

Each rule is an action of its own, and none is recursive.  Where a rule needs a
part, it takes the action for it from a `Descent`, the record of all entry points
that are used again from inside.  `descent` ties the knot: the actions of
`descent grammar (fuel + 1)` use those of `descent grammar fuel`, and those of
`descent grammar 0` stop at once.  Every turn from one entry point to another
uses up one unit of fuel.
-/

namespace BraceLang

/-- The entry points that rules use for their parts. -/
@[ext]
structure Descent (σ : Type) [TokenSource σ] where
  /-- The expression that begins at the current token, above a floor. -/
  expr : BindingPower → Action σ Expr
  /-- The expression that ends at the current token, made longer above a floor. -/
  chain : BindingPower → Expr → Action σ Expr
  /-- The statement that begins at the current token. -/
  stmt : Action σ Stmt
  /-- The statements from the current token up to a closing brace. -/
  stmts : Action σ (List Stmt)
  /-- The parameters after the current token, at least one. -/
  parameters : Action σ (List Identifier)
  /-- The arguments after the current one, each with a comma before it. -/
  arguments : Action σ (List Expr)

namespace Descent

open BraceLang.Action

variable {σ : Type} [TokenSource σ]

/-- The entry points that stop at once. -/
def exhausted : Descent σ where
  expr _ := stop
  chain _ _ := stop
  stmt := stop
  stmts := stop
  parameters := stop
  arguments := stop

/-! ## Leading rules -/

/-- A name or a literal: the current token. -/
def literal : Action σ Expr := do
  let token ← current
  match token.kind with
  | .identifier => pure (.ident ⟨token, token.text⟩)
  | .integer =>
    match Text.readInt64? token.text with
    | some value => pure (.int token value)
    | none => refuse (.notInteger token.text) token
  | .string => pure (.str token token.text)
  | .trueWord => pure (.bool token true)
  | .falseWord => pure (.bool token false)
  | kind => refuse (.noExpression kind token.text) token

/-- An operator and its operand. -/
def operator (d : Descent σ) : Action σ Expr := do
  let token ← current
  advance
  let operand ← d.expr .unary
  pure (.unary token token.text operand)

/-- An expression in parentheses, which leave no trace in the tree. -/
def group (d : Descent σ) : Action σ Expr := do
  advance
  let expression ← d.expr .default
  let _ ← expect .closeParen "grouped expression"
  pure expression

/-- A block, from the opening to the closing brace. -/
def block (d : Descent σ) : Action σ Block := do
  let token ← current
  advance
  let body ← d.stmts
  pure ⟨token, body⟩

/-- The second block of a choice, if there is one. -/
def alternative (d : Descent σ) : Action σ (Option Block) := do
  let next ← peek
  if next.kind = .elseWord then
    advance
    let _ ← expect .openCurly "else branch"
    let body ← d.block
    pure (some body)
  else
    pure none

/-- A choice: a condition, a block, and perhaps another one. -/
def conditional (d : Descent σ) : Action σ Expr := do
  let token ← current
  advance
  let condition ← d.expr .default
  let _ ← expect .openCurly "if expression"
  let consequence ← d.block
  let other ← d.alternative
  pure (.cond token condition consequence other)

/-- The parameters of a function after its opening parenthesis, up to the closing
one. -/
def parameterList (d : Descent σ) : Action σ (List Identifier) := do
  let next ← peek
  if next.kind = .closeParen then
    advance
    pure []
  else
    let names ← d.parameters
    let _ ← expect .closeParen "function parameters"
    pure names

/-- A function: parameters and a body. -/
def function (d : Descent σ) : Action σ Expr := do
  let token ← current
  let _ ← expect .openParen "function literal"
  let names ← d.parameterList
  let _ ← expect .openCurly "function body"
  let body ← d.block
  pure (.func token names body)

/-- The expression that a leading rule makes at the current token. -/
def lead (d : Descent σ) : LeadingRule → Action σ Expr
  | .literal => literal
  | .operator => d.operator
  | .group => d.group
  | .conditional => d.conditional
  | .function => d.function

/-! ## Trailing rules -/

/-- An operator after its left operand, with a right operand above `floor`. -/
def binary (d : Descent σ) (left : Expr) (floor : BindingPower) : Action σ Expr := do
  let token ← current
  advance
  let right ← d.expr floor
  pure (.binary token token.text left right)

/-- The arguments of a call after its opening parenthesis, up to the closing
one. -/
def argumentList (d : Descent σ) : Action σ (List Expr) := do
  let next ← peek
  if next.kind = .closeParen then
    advance
    pure []
  else
    advance
    let first ← d.expr .default
    let others ← d.arguments
    let _ ← expect .closeParen "call arguments"
    pure (first :: others)

/-- A call of `callee`. -/
def call (d : Descent σ) (callee : Expr) : Action σ Expr := do
  let token ← current
  let arguments ← d.argumentList
  pure (.call token callee arguments)

/-- A call of `callee` that is written without arguments and parentheses. -/
def bareCall (callee : Expr) : Action σ Expr := do
  let token ← current
  pure (.call token callee [])

/-- The expression that a trailing rule, of power `power`, makes of `left` and
the current token. -/
def trail (d : Descent σ) (left : Expr) (power : BindingPower) :
    TrailingRule → Action σ Expr
  | .binary => d.binary left power
  | .binaryRight => d.binary left power.pred
  | .call => d.call left
  | .bareCall => bareCall left

/-! ## Expressions -/

/-- The expression that begins at the current token, above a floor. -/
def exprStep (grammar : Grammar) (d : Descent σ) (floor : BindingPower) :
    Action σ Expr := do
  let token ← current
  match grammar.leading token.kind with
  | some rule =>
    let left ← d.lead rule
    d.chain floor left
  | none => refuse (.noExpression token.kind token.text) token

/-- Makes `left` longer by the next token, if that binds stronger than the floor.
A semicolon ends every expression. -/
def chainStep (grammar : Grammar) (d : Descent σ) (floor : BindingPower) (left : Expr) :
    Action σ Expr := do
  let next ← peek
  match grammar.trailing next.kind with
  | some (power, rule) =>
    if next.kind ≠ .semicolon ∧ floor < power then
      advance
      let longer ← d.trail left power rule
      d.chain floor longer
    else
      pure left
  | none => pure left

/-- One parameter, and those after it if a comma follows. -/
def parametersStep (d : Descent σ) : Action σ (List Identifier) := do
  let token ← expect .identifier "function parameters"
  let next ← peek
  if next.kind = .comma then
    advance
    let others ← d.parameters
    pure (⟨token, token.text⟩ :: others)
  else
    pure [⟨token, token.text⟩]

/-- One more argument, and those after it, if a comma follows. -/
def argumentsStep (d : Descent σ) : Action σ (List Expr) := do
  let next ← peek
  if next.kind = .comma then
    advance
    advance
    let argument ← d.expr .default
    let others ← d.arguments
    pure (argument :: others)
  else
    pure []

/-! ## Statements -/

/-- A name is bound to a value. -/
def binding (d : Descent σ) : Action σ Stmt := do
  let token ← current
  let name ← expect .identifier "let statement"
  let _ ← expect .assignment "let statement"
  advance
  let value ← d.expr .default
  skipOptional .semicolon
  pure (.bind token ⟨name, name.text⟩ value)

/-- Whether a result has no value, by the kind of the token after the keyword. -/
def endsBareResult (kind : TokenKind) : Bool :=
  kind = .semicolon || kind = .closeCurly || kind = .eof

/-- The value of a result, if it has one. -/
def resultValue (d : Descent σ) : Action σ (Option Expr) := do
  let next ← peek
  if endsBareResult next.kind then
    pure none
  else
    advance
    let value ← d.expr .default
    pure (some value)

/-- The end of a function, with or without a value. -/
def result (d : Descent σ) : Action σ Stmt := do
  let token ← current
  let value ← d.resultValue
  skipOptional .semicolon
  pure (.ret token value)

/-- An expression as a statement. -/
def expression (d : Descent σ) : Action σ Stmt := do
  let token ← current
  let value ← d.expr .default
  skipOptional .semicolon
  pure (.expr token value)

/-- The end of a function, with a value. -/
def strictResult (d : Descent σ) : Action σ Stmt := do
  let token ← current
  advance
  let value ← d.expr .default
  skipOptional .semicolon
  pure (.ret token (some value))

/-- A block as a statement: a function without parameters. -/
def bareBlock (d : Descent σ) : Action σ Stmt := do
  let token ← current
  let body ← d.block
  skipOptional .semicolon
  pure (.expr token (.func token [] body))

/-- The statement that a rule makes at the current token. -/
def statement (d : Descent σ) : StatementRule → Action σ Stmt
  | .binding => d.binding
  | .result => d.result
  | .expression => d.expression
  | .strictResult => d.strictResult
  | .bareBlock => d.bareBlock

/-- The statement that begins at the current token: an expression, if the token
has no rule of its own. -/
def stmtStep (grammar : Grammar) (d : Descent σ) : Action σ Stmt := do
  let token ← current
  match grammar.statement token.kind with
  | some rule => d.statement rule
  | none => d.expression

/-- The statements from the current token up to a closing brace. -/
def stmtsStep (d : Descent σ) : Action σ (List Stmt) := do
  let token ← current
  if token.kind = .closeCurly then
    pure []
  else if token.kind = .eof then
    refuse (.expectedToken "block" .closeCurly .eof token.text) token
  else
    let first ← d.stmt
    advance
    let others ← d.stmts
    pure (first :: others)

/-- Entry points whose actions use those of `d` for their parts. -/
def step (grammar : Grammar) (d : Descent σ) : Descent σ where
  expr := exprStep grammar d
  chain := chainStep grammar d
  stmt := stmtStep grammar d
  stmts := stmtsStep d
  parameters := parametersStep d
  arguments := argumentsStep d

end Descent

/-! ## The knot -/

open Descent in
/-- The entry points of a grammar, down to the given depth of recursion.  Each
action reaches for the level below only when it runs. -/
def descent {σ : Type} [TokenSource σ] (grammar : Grammar) : Nat → Descent σ
  | 0 => .exhausted
  | fuel + 1 =>
    { expr := fun floor cursor => exprStep grammar (descent grammar fuel) floor cursor
      chain := fun floor left cursor =>
        chainStep grammar (descent grammar fuel) floor left cursor
      stmt := fun cursor => stmtStep grammar (descent grammar fuel) cursor
      stmts := fun cursor => stmtsStep (descent grammar fuel) cursor
      parameters := fun cursor => parametersStep (descent grammar fuel) cursor
      arguments := fun cursor => argumentsStep (descent grammar fuel) cursor }

theorem descent_zero {σ : Type} [TokenSource σ] (grammar : Grammar) :
    descent grammar 0 = (.exhausted : Descent σ) := rfl

theorem descent_succ {σ : Type} [TokenSource σ] (grammar : Grammar) (fuel : Nat) :
    (descent grammar (fuel + 1) : Descent σ) =
      Descent.step grammar (descent grammar fuel) := rfl

end BraceLang
