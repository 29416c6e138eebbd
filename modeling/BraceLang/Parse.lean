import BraceLang.Parser.Basic
import BraceLang.Scanner
import BraceLang.Token.Buffer

/-!
# Reading programs

The ways into the library: a program is read from a text (`parseSource`) or from
tokens that were collected before (`parseTokens`).
-/

namespace BraceLang

/-- Reads the program in `source`, which positions call `file`. -/
def parseSource (source : String) (file : Option String) : ParseResult :=
  parse (Scanner.ofSource source file)

/-- Reads the program that `tokens` make, up to the first end token among
them. -/
def parseTokens (tokens : List Token) : ParseResult :=
  parse (TokenBuffer.ofList tokens)

end BraceLang
