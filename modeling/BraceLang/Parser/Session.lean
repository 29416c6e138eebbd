import BraceLang.Parser.Basic

/-!
# Sessions with a parser

A session is a list of requests to one parser, each answered before the next.
`Request` lists everything that can change a parser from outside, and
`Parser.perform` answers one request, so that what holds of every session can be
stated at one place.
-/

namespace BraceLang

/-- What a parser can be asked to do. -/
inductive Request where
  /-- Move on by one token. -/
  | advance
  /-- Move on to a token of the given kind. -/
  | expect (kind : TokenKind) (construct : String)
  /-- Move on if the next token is of the given kind. -/
  | skipOptional (kind : TokenKind)
  /-- Give a kind a leading rule. -/
  | registerLeading (kind : TokenKind) (rule : LeadingRule)
  /-- Give a kind a trailing rule. -/
  | registerTrailing (kind : TokenKind) (power : BindingPower) (rule : TrailingRule)
  /-- Give a kind a statement rule. -/
  | registerStatement (kind : TokenKind) (rule : StatementRule)
  /-- Give every kind its standard rules again. -/
  | registerStandard
  /-- Read statements up to the end of the source. -/
  | parseProgram
  /-- Read an expression. -/
  | parseExpr (entry : ExprEntry)
  /-- Read a statement. -/
  | parseStmt (entry : StmtEntry)
  /-- Read a block. -/
  | parseBlock

/-- What a parser answers to a request that does not fail. -/
inductive Reply where
  | done
  | token (token : Token)
  | expr (expression : Expr)
  | stmt (statement : Stmt)
  | block (block : Block)
  | program (program : Program)
deriving DecidableEq

namespace Parser

variable {σ : Type} [TokenSource σ]

/-- Answers a request. -/
def perform (parser : Parser σ) : Request → Outcome (Parser σ) Reply
  | .advance => .ok .done parser.advance
  | .expect kind construct => (parser.expect kind construct).map .token
  | .skipOptional kind => .ok .done (parser.skipOptional kind)
  | .registerLeading kind rule => .ok .done (parser.registerLeading kind rule)
  | .registerTrailing kind power rule => .ok .done (parser.registerTrailing kind power rule)
  | .registerStatement kind rule => .ok .done (parser.registerStatement kind rule)
  | .registerStandard => .ok .done parser.registerStandard
  | .parseProgram =>
    let read := parser.parseProgram
    .ok (.program read.1) read.2
  | .parseExpr entry => (parser.parseExpr entry).map .expr
  | .parseStmt entry => (parser.parseStmt entry).map .stmt
  | .parseBlock => parser.parseBlock.map .block

/-- The parser after a request, whether it fails or not; a request that is never
answered leaves the parser as it is. -/
def after (parser : Parser σ) (request : Request) : Parser σ :=
  match parser.perform request with
  | .ok _ moved => moved
  | .fail _ moved => moved
  | .exhausted => parser

/-- The parser after all of a session. -/
def afterAll (parser : Parser σ) (requests : List Request) : Parser σ :=
  requests.foldl after parser

end Parser

end BraceLang
