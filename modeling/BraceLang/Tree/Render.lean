import BraceLang.Text.Quoted
import BraceLang.Tree.Basic

/-!
# The text of a tree

A tree is written on one line, with parentheses around every operator and a
semicolon after every binding and result.  Names, operators and strings are
written from the node; keywords of bindings, results and functions, and the
digits of an integer, from the token.
-/

namespace BraceLang

mutual

/-- The text of an expression. -/
def Expr.render : Expr → String
  | .ident identifier => identifier.name
  | .int token _ => token.text
  | .str _ value => Text.quote value
  | .bool _ value => if value then "true" else "false"
  | .unary _ operator operand => "(" ++ operator ++ operand.render ++ ")"
  | .binary _ operator left right =>
    "(" ++ left.render ++ " " ++ operator ++ " " ++ right.render ++ ")"
  | .cond _ condition consequence none =>
    "if " ++ condition.render ++ " " ++ consequence.render
  | .cond _ condition consequence (some alternative) =>
    "if " ++ condition.render ++ " " ++ consequence.render ++ " else " ++ alternative.render
  | .func token parameters body =>
    token.text ++ "(" ++ ", ".intercalate (parameters.map Identifier.name) ++ ") " ++
      body.render
  | .call _ callee arguments =>
    callee.render ++ "(" ++ ", ".intercalate (Expr.renderEach arguments) ++ ")"

/-- The texts of expressions. -/
def Expr.renderEach : List Expr → List String
  | [] => []
  | expression :: expressions => expression.render :: Expr.renderEach expressions

/-- The text of a statement. -/
def Stmt.render : Stmt → String
  | .bind token name value => token.text ++ " " ++ name.name ++ " = " ++ value.render ++ ";"
  | .ret token none => token.text ++ ";"
  | .ret token (some value) => token.text ++ " " ++ value.render ++ ";"
  | .expr _ expression => expression.render

/-- The texts of statements. -/
def Stmt.renderEach : List Stmt → List String
  | [] => []
  | statement :: statements => statement.render :: Stmt.renderEach statements

/-- The text of a block: each statement has a blank behind it. -/
def Block.render : Block → String
  | ⟨_, body⟩ =>
    "\x7b " ++ String.join ((Stmt.renderEach body).map (· ++ " ")) ++ "\x7d"

end

/-- The text of a program: its statements, with nothing between them. -/
def Program.render (program : Program) : String :=
  String.join (program.statements.map Stmt.render)

end BraceLang
