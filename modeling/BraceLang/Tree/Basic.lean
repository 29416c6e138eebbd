import BraceLang.Token.Basic

/-!
# Syntax trees

A program is a list of statements, a statement holds expressions, and an
expression may hold blocks of statements again.  Each node keeps the token that
it is known by: a keyword, an operator, an opening bracket, or the whole of a
literal or name.

The tree says nothing of how token and node belong together: a node may be put
together by hand from any parts.
-/

namespace BraceLang

/-- A name that is bound or used, and its token. -/
structure Identifier where
  token : Token
  name : String
deriving DecidableEq, Repr, Inhabited

mutual

/-- An expression. -/
inductive Expr where
  /-- A name. -/
  | ident (identifier : Identifier)
  /-- An integer literal. -/
  | int (token : Token) (value : Int64)
  /-- A string literal. -/
  | str (token : Token) (value : String)
  /-- A truth value. -/
  | bool (token : Token) (value : Bool)
  /-- An operator in front of its operand. -/
  | unary (token : Token) (operator : String) (operand : Expr)
  /-- An operator between its operands. -/
  | binary (token : Token) (operator : String) (left right : Expr)
  /-- A choice between two blocks, of which the second may be missing. -/
  | cond (token : Token) (condition : Expr) (consequence : Block)
      (alternative : Option Block)
  /-- A function without a name. -/
  | func (token : Token) (parameters : List Identifier) (body : Block)
  /-- A callee and its arguments; the token is the opening parenthesis. -/
  | call (token : Token) (callee : Expr) (arguments : List Expr)

/-- A statement. -/
inductive Stmt where
  /-- A name is bound to a value. -/
  | bind (token : Token) (name : Identifier) (value : Expr)
  /-- The end of a function, with or without a value. -/
  | ret (token : Token) (value : Option Expr)
  /-- An expression that stands for itself; the token is its first one. -/
  | expr (token : Token) (expression : Expr)

/-- Statements between braces; the token is the opening one. -/
structure Block where
  token : Token
  body : List Stmt

end

/-- The token that an expression is known by. -/
def Expr.token : Expr → Token
  | .ident identifier => identifier.token
  | .int token _ => token
  | .str token _ => token
  | .bool token _ => token
  | .unary token _ _ => token
  | .binary token _ _ _ => token
  | .cond token _ _ _ => token
  | .func token _ _ => token
  | .call token _ _ => token

/-- The token that a statement is known by. -/
def Stmt.token : Stmt → Token
  | .bind token _ _ => token
  | .ret token _ => token
  | .expr token _ => token

/-- The expression that a statement holds. -/
def Stmt.expression? : Stmt → Option Expr
  | .bind _ _ value => some value
  | .ret _ value => value
  | .expr _ expression => some expression

/-- Statements that stand in no block, in the order of the source. -/
structure Program where
  statements : List Stmt

/-- The text of the first token of a program, empty for an empty program. -/
def Program.tokenText (program : Program) : String :=
  match program.statements with
  | [] => ""
  | first :: _ => first.token.text

end BraceLang
