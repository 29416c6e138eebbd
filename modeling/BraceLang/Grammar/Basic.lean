import BraceLang.Grammar.BindingPower
import BraceLang.Token.Basic

/-!
# Grammars

A grammar gives rules to kinds of tokens.  A *leading* rule begins an expression,
a *trailing* rule goes on with an expression that stands in front of the token,
and a *statement* rule begins a statement.  A trailing rule comes with the power
with which it binds; a kind without one has the power `default`, which binds
nothing.

`Grammar.standard` is the grammar of the language.  Rules can be given to further
kinds, and a rule that a kind has can be replaced.
-/

namespace BraceLang

/-! ## Rules -/

/-- How an expression begins with a token. -/
inductive LeadingRule where
  /-- A name or a literal. -/
  | literal
  /-- An operator and its operand. -/
  | operator
  /-- An expression in parentheses. -/
  | group
  /-- A condition and one or two blocks. -/
  | conditional
  /-- Parameters and a body. -/
  | function
deriving DecidableEq, Repr

/-- How an expression goes on with a token. -/
inductive TrailingRule where
  /-- An operand that binds stronger than the operator: equal operators group to
  the left. -/
  | binary
  /-- An operand that binds at least as strong as the operator: equal operators
  group to the right. -/
  | binaryRight
  /-- Arguments in parentheses. -/
  | call
  /-- Nothing: the token calls what stands in front of it without arguments. -/
  | bareCall
deriving DecidableEq, Repr

/-- How a statement begins with a token. -/
inductive StatementRule where
  /-- A name, an assignment sign and a value. -/
  | binding
  /-- A value or none, that ends a function. -/
  | result
  /-- An expression. -/
  | expression
  /-- A value, that ends a function and cannot be missing. -/
  | strictResult
  /-- A block, that is taken as a function without parameters. -/
  | bareBlock
deriving DecidableEq, Repr

/-! ## Grammars -/

/-- The rules of each kind of token. -/
structure Grammar where
  leading : TokenKind → Option LeadingRule
  trailing : TokenKind → Option (BindingPower × TrailingRule)
  statement : TokenKind → Option StatementRule

namespace Grammar

/-- The power with which a kind binds what stands in front of it. -/
def power (grammar : Grammar) (kind : TokenKind) : BindingPower :=
  match grammar.trailing kind with
  | some (power, _) => power
  | none => .default

/-- Gives `kind` a leading rule. -/
def withLeading (grammar : Grammar) (kind : TokenKind) (rule : LeadingRule) : Grammar :=
  { grammar with leading := fun k => if k = kind then some rule else grammar.leading k }

/-- Gives `kind` a trailing rule and its power. -/
def withTrailing (grammar : Grammar) (kind : TokenKind) (power : BindingPower)
    (rule : TrailingRule) : Grammar :=
  { grammar with
    trailing := fun k => if k = kind then some (power, rule) else grammar.trailing k }

/-- Gives `kind` a statement rule. -/
def withStatement (grammar : Grammar) (kind : TokenKind) (rule : StatementRule) : Grammar :=
  { grammar with statement := fun k => if k = kind then some rule else grammar.statement k }

/-- The grammar of the language.  There are five levels of operators between
operands, and all of them group to the left; operators in front of an operand
bind stronger, and calls strongest. -/
def standard : Grammar where
  leading
    | .identifier | .integer | .string | .trueWord | .falseWord => some .literal
    | .not | .dash => some .operator
    | .openParen => some .group
    | .ifWord => some .conditional
    | .fnWord => some .function
    | _ => none
  trailing
    | .and | .or => some (.logical, .binary)
    | .equals | .notEquals => some (.equality, .binary)
    | .less | .lessEquals | .greater | .greaterEquals => some (.relational, .binary)
    | .plus | .dash => some (.additive, .binary)
    | .star | .slash | .percent => some (.multiplicative, .binary)
    | .openParen => some (.call, .call)
    | _ => none
  statement
    | .letWord => some .binding
    | .returnWord => some .result
    | _ => none

/-- Gives every kind its standard rules again, where the standard grammar has
any; other rules stay. -/
def withStandard (grammar : Grammar) : Grammar where
  leading kind := (standard.leading kind).or (grammar.leading kind)
  trailing kind := (standard.trailing kind).or (grammar.trailing kind)
  statement kind := (standard.statement kind).or (grammar.statement kind)

end Grammar

end BraceLang
