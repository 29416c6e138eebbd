import BraceLang.Proofs.Scan.LongestMatch
import BraceLang.Tree.Render

/-!
# The text of a string literal

`quote` and the reader of quoted text are two different codes.  The one writes a character
as itself, as an escape of two characters, or as its code point; the other knows the six
escapes and nothing of code points.

* What `quote` writes for a character is a row of units (`exists_units_encodeChar`), so a
  quoted text ends at its last character, and nowhere before.
* Each unit stands for the character that it was written for, unless this one is hidden: the
  units of a code point stand for themselves.  `unhide` is the text with these left in it
  (`lexed_quote`).
* A text without hidden characters is the only one that `unhide` leaves as it is
  (`unhideChars_eq_iff`).
-/

namespace BraceLang

namespace Text

variable {c : Char} {cs : List Char}

/-- The character by itself or, if it is hidden, what is written for its code point. -/
def unhideChar (c : Char) : List Char :=
  if isHidden c then codePoint c else [c]

/-- The text with the hidden characters replaced by what is written for their code points. -/
def unhide (text : String) : String :=
  String.ofList (text.toList.flatMap unhideChar)

/-! ## Units -/

/-- Characters other than quote and backslash are units that stand for themselves. -/
theorem exists_units_of_plain (h : ∀ c ∈ cs, c ≠ '"' ∧ c ≠ '\\') :
    ∃ units : List QuotedUnit,
      units.flatMap QuotedUnit.written = cs ∧ units.flatMap QuotedUnit.meaning = cs := by
  induction cs with
  | nil => exact ⟨[], rfl, rfl⟩
  | cons c cs ih =>
    obtain ⟨⟨hquote, hbackslash⟩, hothers⟩ := List.forall_mem_cons.1 h
    obtain ⟨units, hwritten, hmeaning⟩ := ih hothers
    refine ⟨.plain c hquote hbackslash :: units, ?_, ?_⟩
    · rw [List.flatMap_cons, hwritten]
      rfl
    · rw [List.flatMap_cons, hmeaning]
      rfl

/-- No digit is a quote or a backslash. -/
theorem plain_of_mem_toDigits {n : Nat} (h : c ∈ Nat.toDigits 16 n) : c ≠ '"' ∧ c ≠ '\\' := by
  induction n using Nat.strongRecOn with
  | ind n ih =>
    have hdigit : ∀ digit : Nat, digit.digitChar ≠ '"' ∧ digit.digitChar ≠ '\\' := fun digit =>
      ⟨Nat.digitChar_ne '"' (by decide), Nat.digitChar_ne '\\' (by decide)⟩
    rw [Nat.toDigits_eq_if (by decide)] at h
    split at h
    · rw [List.mem_singleton] at h
      rw [h]
      exact hdigit n
    · rename_i hlarge
      rcases List.mem_append.1 h with hfront | hlast
      · exact ih (n / 16) (by omega) hfront
      · rw [List.mem_singleton] at hlast
        rw [hlast]
        exact hdigit (n % 16)

/-- What is written for a code point is a pair, which is no escape, and plain characters. -/
theorem exists_units_codePoint (c : Char) : ∃ units : List QuotedUnit,
    units.flatMap QuotedUnit.written = codePoint c ∧
      units.flatMap QuotedUnit.meaning = codePoint c := by
  have hplain : ∀ d ∈ '\x7b' :: (Nat.toDigits 16 c.toNat ++ ['\x7d']), d ≠ '"' ∧ d ≠ '\\' := by
    intro d hd
    rw [List.mem_cons, List.mem_append, List.mem_singleton] at hd
    rcases hd with rfl | hdigit | rfl
    · decide
    · exact plain_of_mem_toDigits hdigit
    · decide
  obtain ⟨units, hwritten, hmeaning⟩ := exists_units_of_plain hplain
  refine ⟨.pair 'u' (by decide) :: units, ?_, ?_⟩
  · rw [List.flatMap_cons, hwritten]
    rfl
  · rw [List.flatMap_cons, hmeaning]
    rfl

/-- What is written for a character is made of units.  They stand for the character, unless
it is hidden. -/
theorem exists_units_encodeChar (c : Char) : ∃ units : List QuotedUnit,
    units.flatMap QuotedUnit.written = encodeChar c ∧
      units.flatMap QuotedUnit.meaning = unhideChar c := by
  unfold encodeChar unhideChar
  cases hletter : escapeLetter? c with
  | some letter =>
    have hback : escapes.lookup letter = some c :=
      (escaped?_eq_lookup letter).symm.trans (escaped?_of_escapeLetter? hletter)
    have hline : letter ≠ '\n' := by
      rintro rfl
      cases hback
    have hshown : isHidden c = false := by rw [isHidden, hletter]; rfl
    refine ⟨[.pair letter hline], rfl, ?_⟩
    rw [hshown, List.flatMap_singleton, QuotedUnit.meaning, hback]
    rfl
  | none =>
    cases isHidden c with
    | true => exact exists_units_codePoint c
    | false =>
      refine exists_units_of_plain fun d hd => ?_
      obtain rfl := List.mem_singleton.1 hd
      constructor
      · rintro rfl
        cases hletter
      · rintro rfl
        cases hletter

theorem exists_units_encode (cs : List Char) : ∃ units : List QuotedUnit,
    units.flatMap QuotedUnit.written = encode cs ∧
      units.flatMap QuotedUnit.meaning = cs.flatMap unhideChar := by
  induction cs with
  | nil => exact ⟨[], rfl, rfl⟩
  | cons c cs ih =>
    obtain ⟨first, hfirst, hfirst'⟩ := exists_units_encodeChar c
    obtain ⟨others, hothers, hothers'⟩ := ih
    refine ⟨first ++ others, ?_, ?_⟩
    · rw [List.flatMap_append, hfirst, hothers]
      rfl
    · rw [List.flatMap_append, hfirst', hothers', List.flatMap_cons]

/-! ## Hidden characters -/

/-- A hidden character does not stand where the backslash of its code point stands. -/
theorem unhideChars_eq_iff :
    cs.flatMap unhideChar = cs ↔ ∀ c ∈ cs, isHidden c = false := by
  induction cs with
  | nil => simp
  | cons c cs ih =>
    rw [List.flatMap_cons, List.forall_mem_cons, ← ih, unhideChar]
    cases hhidden : isHidden c with
    | false => simp
    | true =>
      have hne : c ≠ '\\' := by
        rintro rfl
        cases hhidden
      have hhead : codePoint c ++ cs.flatMap unhideChar ≠ c :: cs := fun heq =>
        hne (List.cons.inj heq).1.symm
      simpa using hhead

theorem unhide_eq_iff {text : String} :
    unhide text = text ↔ ∀ c ∈ text.toList, isHidden c = false := by
  rw [← unhideChars_eq_iff, unhide]
  constructor
  · intro heq
    rw [← String.toList_ofList (l := text.toList.flatMap unhideChar), heq]
  · intro heq
    rw [heq, String.ofList_toList]

end Text

open Text

/-- A quoted text is one string, whatever stands behind it. -/
theorem lexed_quote (text : String) (rest : List Char) :
    Lexed (.string, unhide text) (quote text).toList rest := by
  obtain ⟨units, hwritten, hmeaning⟩ := exists_units_encode text.toList
  have hrun : QuotedRun (encode text.toList ++ '"' :: rest) units ('"' :: rest) :=
    ⟨by rw [hwritten], unitless_iff.2 (.inr (.inl ⟨rest, rfl⟩))⟩
  have hlexed := Lexer.lexed_of_quotedRun hrun
  rwa [hwritten, hmeaning, ← toList_quote] at hlexed

/-- A source that is one lexeme has one token before its end. -/
theorem tokenize_of_lexed {source : String} {spelling : Spelling} (file : Option String)
    (h : Lexed spelling source.toList []) :
    let name := file.getD Scanner.defaultFile
    let stop : Position := ⟨source.utf8ByteSize, name⟩
    tokenize source file = [⟨spelling.1, spelling.2, ⟨0, name⟩, stop⟩, .eof stop] := by
  intro name stop
  have hstop : stop = ⟨0 + byteSize source.toList, name⟩ := by
    rw [Nat.zero_add, ← utf8ByteSize_eq]
  have hrest : (Scanner.ofSource source file).rest = source.toList ++ [] :=
    (List.append_nil _).symm
  rw [tokenize, Scanner.tokens_of_lexed h hrest, Scanner.tokens_lastGap (.closed .nil), hstop]
  rfl

/-- The text of a string literal is one string before the end of the source.  What it stands
for is the value of the literal with the hidden characters replaced by their code points,
which is the value itself just if there are none. -/
theorem tokenize_render_str (token : Token) (value : String) (file : Option String) :
    let text := (Expr.str token value).render
    let name := file.getD Scanner.defaultFile
    let stop : Position := ⟨text.utf8ByteSize, name⟩
    tokenize text file = [⟨.string, unhide value, ⟨0, name⟩, stop⟩, .eof stop] ∧
      (unhide value = value ↔ ∀ c ∈ value.toList, isHidden c = false) :=
  ⟨tokenize_of_lexed file (lexed_quote value []), unhide_eq_iff⟩

end BraceLang
