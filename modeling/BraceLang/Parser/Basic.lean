import BraceLang.Parser.Recovery
import BraceLang.Tree.Equality

/-!
# Parsers

A parser is a cursor, the grammar by which it reads, and the diagnostics found so
far.  Besides whole programs it reads any single construct that begins, or goes
on, at the current token: `ExprEntry` and `StmtEntry` name the constructs.

A failure of a single construct is an outcome like any other; only the failures
that `parseProgram` recovers from are added to the diagnostics.
-/

namespace BraceLang

/-! ## Entry points -/

/-- Where an expression is entered. -/
inductive ExprEntry where
  /-- An expression above a floor. -/
  | expr (floor : BindingPower)
  /-- What a leading rule makes of the current token. -/
  | lead (rule : LeadingRule)
  /-- What a trailing rule makes of an expression and the current token. -/
  | trail (left : Expr) (power : BindingPower) (rule : TrailingRule)

/-- Where a statement is entered. -/
inductive StmtEntry where
  /-- A statement, by the rule of the current token. -/
  | stmt
  /-- What a statement rule makes of the current token. -/
  | statement (rule : StatementRule)

/-- The action of an entry point. -/
def ExprEntry.action {σ : Type} [TokenSource σ] (d : Descent σ) : ExprEntry → Action σ Expr
  | expr floor => d.expr floor
  | lead rule => d.lead rule
  | trail left power rule => d.trail left power rule

/-- The action of an entry point. -/
def StmtEntry.action {σ : Type} [TokenSource σ] (d : Descent σ) : StmtEntry → Action σ Stmt
  | stmt => d.stmt
  | statement rule => d.statement rule

/-! ## Parsers -/

/-- A cursor in a source, the grammar in use, and what was found wrong so far. -/
structure Parser (σ : Type) [TokenSource σ] where
  cursor : Cursor σ
  grammar : Grammar
  diagnostics : Diagnostics

namespace Parser

variable {σ α : Type} [TokenSource σ]

/-- The current token. -/
def current (parser : Parser σ) : Token :=
  parser.cursor.current

/-- The token after the current one. -/
def peek (parser : Parser σ) : Token :=
  parser.cursor.peek

/-- Whether the current token is of `kind`. -/
def currentIs (parser : Parser σ) (kind : TokenKind) : Bool :=
  parser.current.kind = kind

/-- Whether the token after the current one is of `kind`. -/
def peekIs (parser : Parser σ) (kind : TokenKind) : Bool :=
  parser.peek.kind = kind

/-- The power with which the current token binds. -/
def currentPower (parser : Parser σ) : BindingPower :=
  parser.grammar.power parser.current.kind

/-- The power with which the token after the current one binds. -/
def peekPower (parser : Parser σ) : BindingPower :=
  parser.grammar.power parser.peek.kind

/-- Where the current token begins. -/
def position (parser : Parser σ) : Position :=
  parser.current.start

/-! ### Rules -/

/-- Gives `kind` a leading rule. -/
def registerLeading (parser : Parser σ) (kind : TokenKind) (rule : LeadingRule) :
    Parser σ :=
  { parser with grammar := parser.grammar.withLeading kind rule }

/-- Gives `kind` a trailing rule and its power. -/
def registerTrailing (parser : Parser σ) (kind : TokenKind) (power : BindingPower)
    (rule : TrailingRule) : Parser σ :=
  { parser with grammar := parser.grammar.withTrailing kind power rule }

/-- Gives `kind` a statement rule. -/
def registerStatement (parser : Parser σ) (kind : TokenKind) (rule : StatementRule) :
    Parser σ :=
  { parser with grammar := parser.grammar.withStatement kind rule }

/-- Gives every kind its standard rules again, where there are any. -/
def registerStandard (parser : Parser σ) : Parser σ :=
  { parser with grammar := parser.grammar.withStandard }

/-! ### Steps -/

/-- The parser on the first token of a source, with the standard grammar. -/
def start (source : σ) : Parser σ :=
  ⟨.start source, .standard, .empty⟩

/-- Runs an action at the cursor. -/
def run (parser : Parser σ) (action : Action σ α) : Outcome (Parser σ) α :=
  (action parser.cursor).mapState fun cursor => { parser with cursor }

/-- Moves on by one token. -/
def advance (parser : Parser σ) : Parser σ :=
  { parser with cursor := parser.cursor.advance }

/-- Moves on if the next token is of `kind`. -/
def skipOptional (parser : Parser σ) (kind : TokenKind) : Parser σ :=
  { parser with cursor := parser.cursor.skipOptional kind }

/-- Moves on to the next token and gives it, if it is of `kind`. -/
def expect (parser : Parser σ) (kind : TokenKind) (construct : String) :
    Outcome (Parser σ) Token :=
  parser.run (Action.expect kind construct)

/-! ### Constructs -/

/-- The entry points of the grammar in use, with the fuel that suffices from the
cursor on. -/
def descent (parser : Parser σ) : Descent σ :=
  BraceLang.descent parser.grammar parser.cursor.fuel

/-- Reads an expression. -/
def parseExpr (parser : Parser σ) (entry : ExprEntry) : Outcome (Parser σ) Expr :=
  parser.run (entry.action parser.descent)

/-- Reads a statement. -/
def parseStmt (parser : Parser σ) (entry : StmtEntry) : Outcome (Parser σ) Stmt :=
  parser.run (entry.action parser.descent)

/-- Reads a block, from the opening brace that is the current token. -/
def parseBlock (parser : Parser σ) : Outcome (Parser σ) Block :=
  parser.run parser.descent.block

/-- Reads statements up to the end of the source.  Broken ones are left out of
the program, and their diagnostics are added to those of the parser. -/
def parseProgram (parser : Parser σ) : Program × Parser σ :=
  let read := items parser.grammar parser.cursor
  (⟨statementsOf read.1⟩,
    { parser with
      cursor := read.2
      diagnostics := parser.diagnostics.append (diagnosticsOf read.1) })

end Parser

/-! ## Whole sources -/

/-- A program and what was found wrong in it. -/
structure ParseResult where
  program : Program
  diagnostics : Diagnostics
deriving DecidableEq

namespace ParseResult

/-- Whether anything was found wrong. -/
def hasErrors (result : ParseResult) : Bool :=
  !result.diagnostics.isEmpty

/-- The texts of all diagnostics, oldest first. -/
def messages (result : ParseResult) : List String :=
  result.diagnostics.messages

/-- The program if nothing was found wrong, otherwise all diagnostics. -/
def toExcept (result : ParseResult) : Except Diagnostics Program :=
  if result.hasErrors then .error result.diagnostics else .ok result.program

end ParseResult

/-- Reads all of a source by the standard grammar. -/
def parse {σ : Type} [TokenSource σ] (source : σ) : ParseResult :=
  let read := (Parser.start source).parseProgram
  ⟨read.1, read.2.diagnostics⟩

end BraceLang
