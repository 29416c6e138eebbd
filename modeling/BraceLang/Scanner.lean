import BraceLang.Lexeme
import BraceLang.Text.Offset
import BraceLang.Token.Source

/-!
# From characters to tokens

A `Scanner` is the part of a source that is still to be read, with the byte
offset at which it begins.  It is a source of tokens: `next` passes over blanks
and comments, and makes a token of the lexeme that follows.  A character at which
no lexeme begins makes an illegal token of its own, so that scanning never fails.
-/

namespace BraceLang

open Text

/-- The unread part of the source named `file`, which begins at `offset`. -/
structure Scanner where
  rest : List Char
  offset : Nat
  file : String
deriving DecidableEq, Repr

namespace Scanner

/-- The name of a source that was given none. -/
def defaultFile : String := "shell"

/-- The scanner before the first character of `source`. -/
def ofSource (source : String) (file : Option String) : Scanner :=
  ⟨source.toList, 0, file.getD defaultFile⟩

/-- Where the unread part begins. -/
def position (scanner : Scanner) : Position :=
  ⟨scanner.offset, scanner.file⟩

/-- The scanner after `matched`, before `rest`. -/
def past (scanner : Scanner) (matched rest : List Char) : Scanner :=
  ⟨rest, scanner.offset + byteSize matched, scanner.file⟩

/-- The span of `matched` at the head of the unread part. -/
def spanOf (scanner : Scanner) (matched : List Char) : Span :=
  ⟨scanner.position, scanner.offset + byteSize matched, scanner.file⟩

/-- The next token, and the scanner after it. -/
def next (scanner : Scanner) : Token × Scanner :=
  match _hrest : scanner.rest with
  | [] => (.eof scanner.position, scanner)
  | c :: cs =>
    match _hfirst : Lexeme.first? (c :: cs) with
    | none => (⟨.illegal, String.singleton c, scanner.spanOf [c]⟩, scanner.past [c] cs)
    | some lexeme =>
      match lexeme.token? with
      | none => next (scanner.past lexeme.matched lexeme.rest)
      | some (kind, text) =>
        (⟨kind, text, scanner.spanOf lexeme.matched⟩,
          scanner.past lexeme.matched lexeme.rest)
termination_by scanner.rest.length
decreasing_by
  rw [‹scanner.rest = _›]
  exact Lexeme.length_rest_lt_of_first? ‹_›

/-- A token other than the end is taken from the unread part. -/
theorem length_rest_next_lt (scanner : Scanner) (h : scanner.next.1.kind ≠ .eof) :
    scanner.next.2.rest.length < scanner.rest.length := by
  fun_induction next scanner with
  | case1 scanner hrest => exact absurd rfl h
  | case2 scanner c cs hrest hfirst => simp [past, hrest]
  | case3 scanner c cs hrest lexeme hfirst hmade ih =>
    refine Nat.lt_trans (ih h) ?_
    rw [hrest]
    exact Lexeme.length_rest_lt_of_first? hfirst
  | case4 scanner c cs hrest lexeme hfirst kind text hmade =>
    rw [hrest]
    exact Lexeme.length_rest_lt_of_first? hfirst

/-- The end is met again where it was met. -/
theorem next_of_eof (scanner : Scanner) (h : scanner.next.1.kind = .eof) :
    scanner.next.2.next = scanner.next := by
  fun_induction next scanner with
  | case1 scanner hrest =>
    rw [next.eq_def]
    split
    · rfl
    · simp_all
  | case2 scanner c cs hrest hfirst => cases h
  | case3 scanner c cs hrest lexeme hfirst hmade ih => exact ih h
  | case4 scanner c cs hrest lexeme hfirst kind text hmade =>
    exact absurd h (Lexeme.kind_ne_eof_of_first? hfirst hmade)

instance : TokenSource Scanner where
  next := next
  bound scanner := scanner.rest.length
  bound_next_lt := length_rest_next_lt
  next_of_eof := next_of_eof

end Scanner

/-- The tokens of `source`, through the end token. -/
def tokenize (source : String) (file : Option String) : List Token :=
  TokenSource.tokens (Scanner.ofSource source file)

end BraceLang
