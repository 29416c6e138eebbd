import BraceLang.Text.Blank
import BraceLang.Text.Quoted
import BraceLang.Token.Basic

/-!
# Lexemes

The classes of lexemes stand in one table, `LexemeClass.table`, and the lexeme at
the head of a text belongs to the first class of the table that matches there
(`Lexeme.first?`).  A class that is the beginning of another one stands after it.

A match takes at least one character and loses none (`LexemeClass.split?_eq_some`,
`Lexeme.append_of_first?`, `Lexeme.ne_nil_of_first?`).  Blanks and comments are lexemes that
make no token.
-/

namespace BraceLang

open Text

/-! ## Classes -/

/-- A kind of lexeme. -/
inductive LexemeClass where
  /-- A run of blank characters. -/
  | blank
  /-- Two slashes and the rest of the line. -/
  | comment
  /-- A letter or underscore, and all letters, digits and underscores after it. -/
  | word
  /-- A run of digits. -/
  | numeral
  /-- A text between quotes. -/
  | quoted
  /-- One text only, which makes a token of one kind. -/
  | fixed (kind : TokenKind) (text : String)
deriving DecidableEq, Repr

/-- Whether a word can begin with `c`. -/
def isWordStart (c : Char) : Bool :=
  c.isAlpha || c == '_'

/-- Whether a word can go on with `c`. -/
def isWordRest (c : Char) : Bool :=
  c.isAlphanum || c == '_'

namespace LexemeClass

/-- The classes, those that are tried first in front. -/
def table : List LexemeClass :=
  [.blank, .comment, .word, .numeral, .quoted,
   .fixed .openCurly "\x7b", .fixed .closeCurly "\x7d",
   .fixed .openParen "(", .fixed .closeParen ")",
   .fixed .equals "==", .fixed .notEquals "!=", .fixed .not "!",
   .fixed .assignment "=", .fixed .lessEquals "<=", .fixed .less "<",
   .fixed .greaterEquals ">=", .fixed .greater ">",
   .fixed .or "||", .fixed .and "&&", .fixed .semicolon ";", .fixed .comma ",",
   .fixed .plus "+", .fixed .dash "-", .fixed .slash "/", .fixed .star "*",
   .fixed .percent "%"]

/-! ## Matching -/

/-- Splits off a character in `first` and the characters in `more` that follow
it. -/
def splitRun? (first more : Char → Bool) : List Char → Option (List Char × List Char)
  | [] => none
  | c :: cs => if first c then some (c :: cs.takeWhile more, cs.dropWhile more) else none

/-- Splits off a comment, without the line feed that ends it. -/
def splitComment? : List Char → Option (List Char × List Char)
  | '/' :: '/' :: cs =>
    some ('/' :: '/' :: cs.takeWhile (· ≠ '\n'), cs.dropWhile (· ≠ '\n'))
  | _ => none

/-- Splits off `text`, which is not empty. -/
def splitFixed? (text cs : List Char) : Option (List Char × List Char) :=
  if text ≠ [] ∧ text.isPrefixOf cs then some (text, cs.drop text.length) else none

/-- Splits off the lexeme of this class at the head of a text. -/
def split? : LexemeClass → List Char → Option (List Char × List Char)
  | blank => splitRun? isBlank isBlank
  | comment => splitComment?
  | word => splitRun? isWordStart isWordRest
  | numeral => splitRun? Char.isDigit Char.isDigit
  | quoted => splitQuoted?
  | fixed _ text => splitFixed? text.toList

/-- The kind and the text of the token that a lexeme of this class makes, if it
makes one. -/
def token? : LexemeClass → List Char → Option (TokenKind × String)
  | blank, _ => none
  | comment, _ => none
  | word, matched => some (.ofWord (String.ofList matched), String.ofList matched)
  | numeral, matched => some (.integer, String.ofList matched)
  | quoted, matched => some (.string, String.ofList (decodeQuoted matched))
  | fixed kind text, _ => some (kind, text)

/-! ## A match loses nothing and is not empty -/

theorem splitRun?_eq_some {first more : Char → Bool} {cs matched rest : List Char}
    (h : splitRun? first more cs = some (matched, rest)) :
    matched ++ rest = cs ∧ matched ≠ [] := by
  unfold splitRun? at h
  split at h
  · simp at h
  · split at h
    · cases h
      simp [List.takeWhile_append_dropWhile]
    · simp at h

theorem splitComment?_eq_some {cs matched rest : List Char}
    (h : splitComment? cs = some (matched, rest)) : matched ++ rest = cs ∧ matched ≠ [] := by
  unfold splitComment? at h
  split at h
  · cases h
    simp only [List.cons_append, List.takeWhile_append_dropWhile, ne_eq, reduceCtorEq,
      not_false_eq_true, and_self]
  · simp at h

theorem splitFixed?_eq_some {text cs matched rest : List Char}
    (h : splitFixed? text cs = some (matched, rest)) :
    matched ++ rest = cs ∧ matched ≠ [] := by
  unfold splitFixed? at h
  split at h
  · rename_i htext
    cases h
    exact ⟨List.prefix_iff_eq_append.1 (List.isPrefixOf_iff_prefix.1 htext.2), htext.1⟩
  · simp at h

theorem split?_eq_some {cls : LexemeClass} {cs matched rest : List Char}
    (h : cls.split? cs = some (matched, rest)) : matched ++ rest = cs ∧ matched ≠ [] := by
  cases cls with
  | blank | word | numeral => exact splitRun?_eq_some h
  | comment => exact splitComment?_eq_some h
  | quoted => exact ⟨append_of_splitQuoted? h, ne_nil_of_splitQuoted? h⟩
  | fixed _ text => exact splitFixed?_eq_some h

end LexemeClass

/-! ## The lexeme at the head of a text -/

/-- The head of a text, its class, and what follows it. -/
structure Lexeme where
  cls : LexemeClass
  matched : List Char
  rest : List Char

namespace Lexeme

/-- The lexeme of class `cls` at the head of `cs`. -/
def ofClass? (cls : LexemeClass) (cs : List Char) : Option Lexeme :=
  (cls.split? cs).map fun split => ⟨cls, split.1, split.2⟩

/-- The lexeme at the head of `cs`: that of the first class which matches. -/
def first? (cs : List Char) : Option Lexeme :=
  LexemeClass.table.findSome? (ofClass? · cs)

/-- The kind and the text of the token that the lexeme makes, if it makes one. -/
def token? (lexeme : Lexeme) : Option (TokenKind × String) :=
  lexeme.cls.token? lexeme.matched

theorem first?_eq_some {cs : List Char} {lexeme : Lexeme} (h : first? cs = some lexeme) :
    lexeme.cls ∈ LexemeClass.table ∧
      lexeme.cls.split? cs = some (lexeme.matched, lexeme.rest) := by
  obtain ⟨cls, hcls, hmatch⟩ := List.exists_of_findSome?_eq_some h
  obtain ⟨split, hsplit, rfl⟩ := Option.map_eq_some_iff.1 hmatch
  exact ⟨hcls, hsplit⟩

theorem append_of_first? {cs : List Char} {lexeme : Lexeme} (h : first? cs = some lexeme) :
    lexeme.matched ++ lexeme.rest = cs :=
  (LexemeClass.split?_eq_some (first?_eq_some h).2).1

theorem ne_nil_of_first? {cs : List Char} {lexeme : Lexeme} (h : first? cs = some lexeme) :
    lexeme.matched ≠ [] :=
  (LexemeClass.split?_eq_some (first?_eq_some h).2).2

/-- What follows the first lexeme of a text is shorter than the text. -/
theorem length_rest_lt_of_first? {cs : List Char} {lexeme : Lexeme}
    (h : first? cs = some lexeme) : lexeme.rest.length < cs.length := by
  have hlength := congrArg List.length (append_of_first? h)
  have hpos := List.length_pos_iff.2 (ne_nil_of_first? h)
  rw [List.length_append] at hlength
  omega

/-- No lexeme makes an end token. -/
theorem kind_ne_eof_of_first? {cs : List Char} {lexeme : Lexeme} {made : TokenKind × String}
    (h : first? cs = some lexeme) (hmade : lexeme.token? = some made) : made.1 ≠ .eof := by
  obtain ⟨cls, matched, rest⟩ := lexeme
  have hcls : cls ∈ LexemeClass.table := (first?_eq_some h).1
  cases cls with
  | blank | comment => simp [token?, LexemeClass.token?] at hmade
  | word => cases hmade; exact TokenKind.ofWord_ne_eof _
  | numeral | quoted => cases hmade; simp
  | fixed kind text =>
    cases hmade
    rintro rfl
    simp [LexemeClass.table] at hcls

end Lexeme

end BraceLang
