import BraceLang.Text.Quoted
import BraceLang.Token.Basic

/-!
# Diagnostics

A diagnostic is the cause of a failure and the position to blame.  `Diagnostics`
collects them in the order in which they were found; it only ever grows.
-/

namespace BraceLang

/-- Why a token is refused. -/
inductive Cause where
  /-- The construct goes on with a token of another kind than the one found. -/
  | expectedToken (construct : String) (expected found : TokenKind) (text : String)
  /-- No expression begins with a token of this kind. -/
  | noExpression (kind : TokenKind) (text : String)
  /-- The text is no numeral of a 64-bit integer. -/
  | notInteger (literal : String)
deriving DecidableEq, Repr

namespace Cause

/-- The name of the sort of cause. -/
def name : Cause → String
  | expectedToken .. => "ExpectedToken"
  | noExpression .. => "NoPrefixParseFn"
  | notInteger .. => "IntegerParseError"

/-- What went wrong, in words. -/
def message : Cause → String
  | expectedToken construct expected found text =>
    construct ++ ": expected " ++ expected.name ++ ", found " ++ found.name ++
      " (" ++ Text.quote text ++ ")"
  | noExpression kind text =>
    "no prefix parse function for " ++ kind.name ++ " (" ++ Text.quote text ++ ")"
  | notInteger literal => "could not parse " ++ Text.quote literal ++ " as integer"

end Cause

/-- What went wrong, and where. -/
structure Diagnostic where
  cause : Cause
  position : Position
deriving DecidableEq, Repr

/-- The message of a diagnostic, with its place. -/
def Diagnostic.render (diagnostic : Diagnostic) : String :=
  diagnostic.cause.message ++ " at " ++ diagnostic.position.render

/-- Diagnostics in the order in which they were found. -/
structure Diagnostics where
  entries : List Diagnostic
deriving DecidableEq, Repr

namespace Diagnostics

/-- No diagnostics. -/
def empty : Diagnostics := ⟨[]⟩

instance : Inhabited Diagnostics := ⟨empty⟩

/-- Adds a diagnostic after all others. -/
def push (diagnostics : Diagnostics) (diagnostic : Diagnostic) : Diagnostics :=
  ⟨diagnostics.entries ++ [diagnostic]⟩

/-- Adds diagnostics after all others, in their order. -/
def append (diagnostics : Diagnostics) (more : List Diagnostic) : Diagnostics :=
  ⟨diagnostics.entries ++ more⟩

/-- How many there are. -/
def size (diagnostics : Diagnostics) : Nat :=
  diagnostics.entries.length

/-- Whether there are none. -/
def isEmpty (diagnostics : Diagnostics) : Bool :=
  diagnostics.entries.isEmpty

/-- The latest one. -/
def last? (diagnostics : Diagnostics) : Option Diagnostic :=
  diagnostics.entries.getLast?

/-- The texts of all, oldest first. -/
def messages (diagnostics : Diagnostics) : List String :=
  diagnostics.entries.map Diagnostic.render

@[simp] theorem last?_push (diagnostics : Diagnostics) (diagnostic : Diagnostic) :
    (diagnostics.push diagnostic).last? = some diagnostic := by
  simp [push, last?]

@[simp] theorem size_push (diagnostics : Diagnostics) (diagnostic : Diagnostic) :
    (diagnostics.push diagnostic).size = diagnostics.size + 1 := by
  simp [push, size]

end Diagnostics

end BraceLang
