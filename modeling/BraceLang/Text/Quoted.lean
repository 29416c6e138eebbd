import BraceLang.Text.Combining
import BraceLang.Text.Ignorable
import BraceLang.Text.Unprintable

/-!
# Quoted text

Two functions share the quote as delimiter and the backslash as escape.

* `quote` writes a text between quotes, so that every character of it can be
  seen: six characters have a two-character escape, and one that is unprintable,
  displays as nothing or attaches to its neighbour is written as its code point.
* `splitQuoted?` finds where a quoted text ends, and `decode` gives the text that
  stands between the quotes.  Only the six escapes are understood; any other
  pair of a backslash and a character stands for itself.

`decode_encode_of_shown` ties the two together: a text in which no character is
written as a code point reads back.
-/

namespace BraceLang.Text

/-! ## Escapes -/

/-- The letter that follows the backslash in the escape of `c`, if `c` has one. -/
def escapeLetter? : Char → Option Char
  | '\n' => some 'n'
  | '\t' => some 't'
  | '\r' => some 'r'
  | '\\' => some '\\'
  | '"' => some '"'
  | '\x00' => some '0'
  | _ => none

/-- The character that a backslash and `letter` stand for, if they are an
escape. -/
def escaped? : Char → Option Char
  | 'n' => some '\n'
  | 't' => some '\t'
  | 'r' => some '\r'
  | '\\' => some '\\'
  | '"' => some '"'
  | '0' => some '\x00'
  | _ => none

/-- The escapes read back. -/
theorem escaped?_of_escapeLetter? {c letter : Char} (h : escapeLetter? c = some letter) :
    escaped? letter = some c := by
  unfold escapeLetter? at h
  split at h <;> cases h <;> rfl

/-! ## Writing -/

/-- Whether `c` is written as its code point: it has no escape of its own and
could not be seen as it is. -/
def isHidden (c : Char) : Bool :=
  (escapeLetter? c).isNone && (isUnprintable c || isIgnorable c || isCombining c)

/-- The code point of `c` in lower-case hexadecimal digits, without leading
zeros, between `\u{` and `}`. -/
def codePoint (c : Char) : List Char :=
  '\\' :: 'u' :: '{' :: (Nat.toDigits 16 c.toNat ++ ['}'])

/-- What stands for `c` in a quoted text. -/
def encodeChar (c : Char) : List Char :=
  match escapeLetter? c with
  | some letter => ['\\', letter]
  | none => if isHidden c then codePoint c else [c]

/-- What stands for the text `cs` between quotes. -/
def encode (cs : List Char) : List Char :=
  cs.flatMap encodeChar

/-- The text `s` between quotes. -/
def quote (s : String) : String :=
  String.ofList ('"' :: encode s.toList ++ ['"'])

/-! ## Reading -/

/-- Splits a text after its closing quote.  A character other than quote and
backslash goes with the body, and so does a backslash with the character after
it, which may not be a line feed. -/
def splitBody? : List Char → Option (List Char × List Char)
  | [] => none
  | '"' :: rest => some ([], rest)
  | '\\' :: c :: rest =>
    if c = '\n' then none
    else (splitBody? rest).map fun split => ('\\' :: c :: split.1, split.2)
  | c :: rest =>
    if c = '\\' then none
    else (splitBody? rest).map fun split => (c :: split.1, split.2)

/-- Splits a quoted text from what follows it, if the text begins with a quote
and is closed.  The first part has both quotes. -/
def splitQuoted? : List Char → Option (List Char × List Char)
  | '"' :: rest => (splitBody? rest).map fun split => ('"' :: split.1 ++ ['"'], split.2)
  | _ => none

/-- The text that the body of a quoted text stands for. -/
def decode : List Char → List Char
  | [] => []
  | '\\' :: c :: rest =>
    match escaped? c with
    | some d => d :: decode rest
    | none => '\\' :: c :: decode rest
  | c :: rest => c :: decode rest

/-- The text between the two quotes of `cs`, decoded. -/
def decodeQuoted (cs : List Char) : List Char :=
  decode (cs.drop 1).dropLast

/-! ## Laws -/

theorem decode_cons_of_ne {c : Char} (hc : c ≠ '\\') (rest : List Char) :
    decode (c :: rest) = c :: decode rest := by
  cases rest <;> simp [decode, hc]

/-- A text in which every character is shown, as itself or by an escape, reads
back. -/
theorem decode_encode_of_shown {cs : List Char} (hshown : ∀ c ∈ cs, isHidden c = false) :
    decode (encode cs) = cs := by
  induction cs with
  | nil => rfl
  | cons c cs ih =>
    have htail : decode (encode cs) = cs :=
      ih fun d hd => hshown d (List.mem_cons_of_mem c hd)
    have hhead : isHidden c = false := hshown c List.mem_cons_self
    cases hletter : escapeLetter? c with
    | some letter =>
      have hback := escaped?_of_escapeLetter? hletter
      simp only [encode, List.flatMap_cons, encodeChar, hletter, List.cons_append,
        List.nil_append]
      simp only [decode, hback]
      exact congrArg (c :: ·) htail
    | none =>
      have hne : c ≠ '\\' := by
        rintro rfl
        simp [escapeLetter?] at hletter
      have hencode : encode (c :: cs) = c :: encode cs := by
        simp [encode, encodeChar, hletter, hhead]
      rw [hencode, decode_cons_of_ne hne, htail]

/-- Nothing is lost where a body is split off: the body, the closing quote and
the rest make the text. -/
theorem eq_of_splitBody? {cs body rest : List Char} (h : splitBody? cs = some (body, rest)) :
    cs = body ++ '"' :: rest := by
  fun_induction splitBody? cs generalizing body rest with
  | case1 => simp at h
  | case2 => cases h; rfl
  | case3 => simp at h
  | case4 c tail hc ih =>
    obtain ⟨split, hsplit, heq⟩ := Option.map_eq_some_iff.1 h
    cases heq
    simp [← ih hsplit]
  | case5 => simp at h
  | case6 c tail _ _ hc ih =>
    obtain ⟨split, hsplit, heq⟩ := Option.map_eq_some_iff.1 h
    cases heq
    simp [← ih hsplit]

/-- A quoted text and what follows it make the text that was split. -/
theorem append_of_splitQuoted? {cs quoted rest : List Char}
    (h : splitQuoted? cs = some (quoted, rest)) : quoted ++ rest = cs := by
  unfold splitQuoted? at h
  split at h
  · obtain ⟨split, hsplit, heq⟩ := Option.map_eq_some_iff.1 h
    cases heq
    simp [eq_of_splitBody? hsplit]
  · simp at h

/-- A quoted text is not empty. -/
theorem ne_nil_of_splitQuoted? {cs quoted rest : List Char}
    (h : splitQuoted? cs = some (quoted, rest)) : quoted ≠ [] := by
  unfold splitQuoted? at h
  split at h
  · obtain ⟨split, _, heq⟩ := Option.map_eq_some_iff.1 h
    cases heq
    simp
  · simp at h

end BraceLang.Text
