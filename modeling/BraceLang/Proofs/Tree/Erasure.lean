import BraceLang.Diagnostic
import BraceLang.Tree.Basic

/-!
# Erasing parts of a tree

Statements about trees often leave something aside, such as the places in the
source.  An `Erasure` says what is left aside: it maps each token, each text that
is copied from one, and each position to what is kept of it.  `Expr.erase` and the
functions beside it apply an erasure to all parts of a tree, and two trees that
are equal after this differ only in what was left aside.

The token of an expression that stands as a statement has a map of its own: it is
the first token of the expression, which can be a parenthesis that leaves no other
trace.
-/

namespace BraceLang

/-- What is kept of the parts of a tree and of a diagnostic. -/
structure Erasure where
  token : Token → Token
  /-- For the first token of an expression that stands as a statement. -/
  first : Token → Token
  /-- For texts that are copied from a token. -/
  text : String → String
  position : Position → Position

/-- Nothing is left aside. -/
def Erasure.none : Erasure := ⟨id, id, id, id⟩

/-- All places in the source are left aside, and the first token of an expression that
stands as a statement. -/
def Erasure.places : Erasure where
  token token := ⟨token.kind, token.text, .null⟩
  first _ := default
  text := id
  position _ := .null

/-! ## Trees -/

def Identifier.erase (E : Erasure) (identifier : Identifier) : Identifier :=
  ⟨E.token identifier.token, E.text identifier.name⟩

mutual

def Expr.erase (E : Erasure) : Expr → Expr
  | .ident identifier => .ident (identifier.erase E)
  | .int token value => .int (E.token token) value
  | .str token value => .str (E.token token) (E.text value)
  | .bool token value => .bool (E.token token) value
  | .unary token operator operand =>
    .unary (E.token token) (E.text operator) (operand.erase E)
  | .binary token operator left right =>
    .binary (E.token token) (E.text operator) (left.erase E) (right.erase E)
  | .cond token condition consequence none =>
    .cond (E.token token) (condition.erase E) (consequence.erase E) none
  | .cond token condition consequence (some alternative) =>
    .cond (E.token token) (condition.erase E) (consequence.erase E) (some (alternative.erase E))
  | .func token parameters body =>
    .func (E.token token) (parameters.map (Identifier.erase E)) (body.erase E)
  | .call token callee arguments =>
    .call (E.token token) (callee.erase E) (Expr.eraseEach E arguments)

def Expr.eraseEach (E : Erasure) : List Expr → List Expr
  | [] => []
  | expression :: expressions => expression.erase E :: Expr.eraseEach E expressions

def Stmt.erase (E : Erasure) : Stmt → Stmt
  | .bind token name value => .bind (E.token token) (name.erase E) (value.erase E)
  | .ret token none => .ret (E.token token) none
  | .ret token (some value) => .ret (E.token token) (some (value.erase E))
  | .expr token expression => .expr (E.first token) (expression.erase E)

def Stmt.eraseEach (E : Erasure) : List Stmt → List Stmt
  | [] => []
  | statement :: statements => statement.erase E :: Stmt.eraseEach E statements

def Block.erase (E : Erasure) : Block → Block
  | ⟨token, body⟩ => ⟨E.token token, Stmt.eraseEach E body⟩

end

mutual

theorem Expr.erase_none : ∀ expression : Expr, expression.erase .none = expression
  | .ident identifier => rfl
  | .int token value => rfl
  | .str token value => rfl
  | .bool token value => rfl
  | .unary token operator operand => by
    rw [Expr.erase, Expr.erase_none operand]
    rfl
  | .binary token operator left right => by
    rw [Expr.erase, Expr.erase_none left, Expr.erase_none right]
    rfl
  | .cond token condition consequence none => by
    rw [Expr.erase, Expr.erase_none condition, Block.erase_none consequence]
    rfl
  | .cond token condition consequence (some alternative) => by
    rw [Expr.erase, Expr.erase_none condition, Block.erase_none consequence,
      Block.erase_none alternative]
    rfl
  | .func token parameters body => by
    have hparameters : parameters.map (Identifier.erase .none) = parameters :=
      List.map_id parameters
    rw [Expr.erase, hparameters, Block.erase_none body]
    rfl
  | .call token callee arguments => by
    rw [Expr.erase, Expr.erase_none callee, Expr.eraseEach_none arguments]
    rfl

theorem Expr.eraseEach_none : ∀ expressions : List Expr,
    Expr.eraseEach .none expressions = expressions
  | [] => rfl
  | expression :: expressions => by
    rw [Expr.eraseEach, Expr.erase_none expression, Expr.eraseEach_none expressions]

theorem Stmt.erase_none : ∀ statement : Stmt, statement.erase .none = statement
  | .bind token name value => by
    rw [Stmt.erase, Expr.erase_none value]
    rfl
  | .ret token none => rfl
  | .ret token (some value) => by
    rw [Stmt.erase, Expr.erase_none value]
    rfl
  | .expr token expression => by
    rw [Stmt.erase, Expr.erase_none expression]
    rfl

theorem Stmt.eraseEach_none : ∀ statements : List Stmt,
    Stmt.eraseEach .none statements = statements
  | [] => rfl
  | statement :: statements => by
    rw [Stmt.eraseEach, Stmt.erase_none statement, Stmt.eraseEach_none statements]

theorem Block.erase_none : ∀ block : Block, block.erase .none = block
  | ⟨token, body⟩ => by
    rw [Block.erase, Stmt.eraseEach_none body]
    rfl

end

/-! ## Diagnostics -/

def Cause.erase (E : Erasure) : Cause → Cause
  | .expectedToken construct expected found text =>
    .expectedToken construct expected found (E.text text)
  | .noExpression kind text => .noExpression kind (E.text text)
  | .notInteger literal => .notInteger (E.text literal)

def Diagnostic.erase (E : Erasure) (diagnostic : Diagnostic) : Diagnostic :=
  ⟨diagnostic.cause.erase E, E.position diagnostic.position⟩

theorem Diagnostic.erase_none (diagnostic : Diagnostic) :
    diagnostic.erase .none = diagnostic := by
  obtain ⟨cause, position⟩ := diagnostic
  cases cause <;> rfl

end BraceLang
