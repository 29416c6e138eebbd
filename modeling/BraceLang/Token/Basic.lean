import BraceLang.Position

/-!
# Tokens

A token is a kind, a text and the span that it covers.  The kinds are a closed
list, `TokenKind.all`; seven of them are the reserved words, which
`TokenKind.ofWord` tells from the other words.
-/

namespace BraceLang

/-! ## Kinds -/

/-- What a token is to the grammar. -/
inductive TokenKind where
  /-- The end of the tokens. -/
  | eof
  /-- A character that begins no lexeme. -/
  | illegal
  | integer
  | string
  | identifier
  | openCurly
  | closeCurly
  | openParen
  | closeParen
  | assignment
  | equals
  | not
  | notEquals
  | less
  | lessEquals
  | greater
  | greaterEquals
  | or
  | and
  | semicolon
  | comma
  | plus
  | dash
  | slash
  | star
  | percent
  | letWord
  | returnWord
  | fnWord
  | ifWord
  | elseWord
  | trueWord
  | falseWord
deriving DecidableEq, Repr, Inhabited

namespace TokenKind

/-- Every kind, once. -/
def all : List TokenKind :=
  [eof, illegal, integer, string, identifier, openCurly, closeCurly, openParen,
   closeParen, assignment, equals, not, notEquals, less, lessEquals, greater,
   greaterEquals, or, and, semicolon, comma, plus, dash, slash, star, percent,
   letWord, returnWord, fnWord, ifWord, elseWord, trueWord, falseWord]

/-- The name of a kind in messages. -/
def name : TokenKind → String
  | eof => "EOF"
  | illegal => "Illegal"
  | integer => "Integer"
  | string => "String"
  | identifier => "Identifier"
  | openCurly => "OpenCurly"
  | closeCurly => "CloseCurly"
  | openParen => "OpenParen"
  | closeParen => "CloseParen"
  | assignment => "Assignment"
  | equals => "Equals"
  | not => "Not"
  | notEquals => "NotEquals"
  | less => "Less"
  | lessEquals => "LessEquals"
  | greater => "Greater"
  | greaterEquals => "GreaterEquals"
  | or => "Or"
  | and => "And"
  | semicolon => "Semicolon"
  | comma => "Comma"
  | plus => "Plus"
  | dash => "Dash"
  | slash => "Slash"
  | star => "Star"
  | percent => "Percent"
  | letWord => "Let"
  | returnWord => "Return"
  | fnWord => "Fn"
  | ifWord => "If"
  | elseWord => "Else"
  | trueWord => "True"
  | falseWord => "False"

/-- The kind that a name belongs to. -/
def ofName? (text : String) : Option TokenKind :=
  all.find? fun kind => kind.name = text

theorem ofName?_name (kind : TokenKind) : ofName? kind.name = some kind := by
  cases kind <;> decide

/-- The reserved words, each with its kind. -/
def reservedWords : List (String × TokenKind) :=
  [("let", letWord), ("return", returnWord), ("fn", fnWord), ("if", ifWord),
   ("else", elseWord), ("true", trueWord), ("false", falseWord)]

/-- The kind of a reserved word. -/
def reserved? (word : String) : Option TokenKind :=
  reservedWords.lookup word

/-- The kind of a word: a word that is not reserved is an identifier. -/
def ofWord (word : String) : TokenKind :=
  (reserved? word).getD identifier

/-- A word is an identifier or reserved. -/
theorem ofWord_cases (word : String) :
    ofWord word = identifier ∨ (word, ofWord word) ∈ reservedWords := by
  unfold ofWord
  cases h : reserved? word with
  | none => exact Or.inl rfl
  | some kind =>
    obtain ⟨before, after, hwords, _⟩ := List.lookup_eq_some_iff.1 h
    right
    rw [hwords]
    exact List.mem_append_right before List.mem_cons_self

/-- No word ends a source. -/
theorem ofWord_ne_eof (word : String) : ofWord word ≠ eof := by
  rcases ofWord_cases word with h | h
  · rw [h]
    decide
  · intro heof
    rw [heof] at h
    simp [reservedWords] at h

theorem ne_eof_of_eq {kind kind' : TokenKind} (h : kind = kind') (hne : kind' ≠ eof) :
    kind ≠ eof := by
  rw [h]
  exact hne

end TokenKind

/-! ## Tokens -/

/-- A kind with the text it was read from, or stands for, and its place. -/
structure Token where
  kind : TokenKind
  text : String
  span : Span
deriving DecidableEq, Repr, Inhabited

namespace Token

/-- The token that ends a source at `position`. -/
def eof (position : Position) : Token :=
  ⟨.eof, "EOF", position, position⟩

/-- The kind, and the text in parentheses. -/
def render (token : Token) : String :=
  token.kind.name ++ " (" ++ token.text ++ ")"

/-- Where the token begins. -/
def start (token : Token) : Position :=
  token.span.start

/-- Where the token ends. -/
def stop (token : Token) : Position :=
  token.span.stop

end Token

end BraceLang
