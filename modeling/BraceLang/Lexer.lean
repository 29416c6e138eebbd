import BraceLang.Scanner

/-!
# Reading a source at any byte

A `Lexer` is a whole source with a byte position in it that can be moved at will.
Its next token is the one that a scanner at this position gives.  A position
inside a character, or past the end of the source, has no characters after it:
there `remainder?` is `none`.  Past the end there is nothing but the end token.
-/

namespace BraceLang

open Text

/-- The source named `file`, read from the byte `offset` on. -/
structure Lexer where
  source : String
  offset : Nat
  file : String
deriving DecidableEq, Repr

namespace Lexer

/-- The lexer at the beginning of `source`. -/
def ofSource (source : String) (file : Option String) : Lexer :=
  ⟨source, 0, file.getD Scanner.defaultFile⟩

/-- Moves the position on by `count` bytes. -/
def advance (lexer : Lexer) (count : Nat) : Lexer :=
  { lexer with offset := lexer.offset + count }

/-- Whether nothing of the source is left. -/
def atEnd (lexer : Lexer) : Bool :=
  lexer.source.utf8ByteSize ≤ lexer.offset

/-- Where the lexer stands. -/
def position (lexer : Lexer) : Position :=
  ⟨lexer.offset, lexer.file⟩

/-- The span of the next `size` bytes. -/
def spanOf (lexer : Lexer) (size : Nat) : Span :=
  ⟨lexer.position, lexer.offset + size, lexer.file⟩

/-- The characters after the position. -/
def unread? (lexer : Lexer) : Option (List Char) :=
  dropBytes? lexer.offset lexer.source.toList

/-- The text after the position. -/
def remainder? (lexer : Lexer) : Option String :=
  lexer.unread?.map String.ofList

/-- The next token and the lexer after it, unless the position is inside a
character. -/
def next? (lexer : Lexer) : Option (Token × Lexer) :=
  if lexer.atEnd then some (.eof lexer.position, lexer)
  else
    lexer.unread?.map fun rest =>
      let step := Scanner.next ⟨rest, lexer.offset, lexer.file⟩
      (step.1, { lexer with offset := step.2.offset })

end Lexer

end BraceLang
