import BraceLang.Lexeme

/-!
# Spellings

A *spelling* is what a token is apart from its place: a kind and a text.  Not every
text goes with every kind.  `Spelled` lists those that do, and a lexeme makes no
token that is not spelled so (`spelled_of_first?`).

A spelling is written as its text, or between quotes if it is a string
(`Spelling.write`).  What is written is read back, whatever stands behind it, as
long as the next character does not go on with the lexeme (`first?_write`).
-/

namespace BraceLang

open Text

/-- A kind and a text. -/
abbrev Spelling : Type := TokenKind × String

/-- What a token is apart from its place. -/
def Token.spelling (token : Token) : Spelling := (token.kind, token.text)

/-- The texts of the tokens of a kind. -/
inductive Spelled : TokenKind → String → Prop where
  | word {kind : TokenKind} {text : String} {c : Char} {cs : List Char}
      (hkind : .ofWord text = kind) (htext : text.toList = c :: cs)
      (hfirst : isWordStart c = true) (hmore : ∀ d ∈ cs, isWordRest d = true) :
      Spelled kind text
  | numeral {text : String} {c : Char} {cs : List Char} (htext : text.toList = c :: cs)
      (hfirst : c.isDigit = true) (hmore : ∀ d ∈ cs, d.isDigit = true) : Spelled .integer text
  | quoted (text : String) : Spelled .string text
  | fixed {kind : TokenKind} {text : String} (h : .fixed kind text ∈ LexemeClass.table) :
      Spelled kind text

/-! ## What is read is spelled -/

theorem splitRun?_parts {first more : Char → Bool} {cs matched rest : List Char}
    (h : LexemeClass.splitRun? first more cs = some (matched, rest)) :
    ∃ c ds, matched = c :: ds ∧ first c = true ∧ ∀ d ∈ ds, more d = true := by
  unfold LexemeClass.splitRun? at h
  split at h
  · cases h
  · rename_i c cs
    split at h
    · rename_i hfirst
      cases h
      exact ⟨c, cs.takeWhile more, rfl, hfirst,
        fun d hd => List.all_eq_true.1 List.all_takeWhile d hd⟩
    · cases h

theorem Lexeme.spelled_of_first? {cs : List Char} {lexeme : Lexeme} {spelling : Spelling}
    (h : first? cs = some lexeme) (hmade : lexeme.token? = some spelling) :
    Spelled spelling.1 spelling.2 := by
  obtain ⟨hcls, hsplit⟩ := first?_eq_some h
  obtain ⟨cls, matched, rest⟩ := lexeme
  cases cls with
  | blank | comment => cases hmade
  | word =>
    cases hmade
    obtain ⟨c, ds, rfl, hfirst, hmore⟩ := splitRun?_parts hsplit
    exact .word rfl String.toList_ofList hfirst hmore
  | numeral =>
    cases hmade
    obtain ⟨c, ds, rfl, hfirst, hmore⟩ := splitRun?_parts hsplit
    exact .numeral String.toList_ofList hfirst hmore
  | quoted =>
    cases hmade
    exact .quoted _
  | fixed kind text =>
    cases hmade
    exact .fixed hcls

/-! ## What is written -/

/-- How a spelling is written. -/
def Spelling.write : Spelling → String
  | (.string, text) => quote text
  | (_, text) => text

/-- Whether a lexeme that makes a token of `kind` goes on with `c`. -/
def goesOn (kind : TokenKind) (c : Char) : Bool :=
  match kind with
  | .integer => c.isDigit
  | .assignment | .not | .less | .greater => c == '='
  | .slash => c == '/'
  | .identifier | .letWord | .returnWord | .fnWord | .ifWord | .elseWord | .trueWord
  | .falseWord => isWordRest c
  | _ => false

/-- All characters of a string can be seen. -/
def Spelling.Shown (spelling : Spelling) : Prop :=
  spelling.1 = .string → ∀ c ∈ spelling.2.toList, isHidden c = false

/-- The first character of `rest`, if there is one, does not go on with a lexeme that
makes a token of `kind`. -/
def Parts (kind : TokenKind) (rest : List Char) : Prop :=
  ∀ c ∈ rest.head?, goesOn kind c = false

/-! ### Runs -/

theorem isBlank_eq_false {c : Char} (h : 33 ≤ c.toNat) (h' : c.toNat ≤ 132) :
    isBlank c = false := by
  apply Bool.eq_false_iff.2
  intro hblank
  obtain ⟨range, hrange, hle, hge⟩ := inRanges_iff.1 hblank
  simp only [blankRanges, List.mem_cons, List.not_mem_nil, or_false] at hrange
  rcases hrange with rfl | rfl | rfl | rfl | rfl | rfl | rfl | rfl | rfl | rfl <;> omega

theorem toNat_of_isWordStart {c : Char} (h : isWordStart c = true) :
    65 ≤ c.toNat ∧ c.toNat ≤ 90 ∨ 97 ≤ c.toNat ∧ c.toNat ≤ 122 ∨ c.toNat = 95 := by
  rcases Bool.or_eq_true_iff.1 h with hletter | hlow
  · rcases Bool.or_eq_true_iff.1 hletter with hupper | hlower
    · exact .inl (of_decide_eq_true hupper)
    · have hbounds := Bool.and_eq_true_iff.1 hlower
      exact .inr (.inl ⟨of_decide_eq_true hbounds.1, of_decide_eq_true hbounds.2⟩)
  · exact .inr (.inr (congrArg Char.toNat (eq_of_beq hlow)))

theorem toNat_of_isDigit {c : Char} (h : c.isDigit = true) : 48 ≤ c.toNat ∧ c.toNat ≤ 57 :=
  Char.isDigit_iff_toNat.1 h

theorem splitRun?_append {first more : Char → Bool} {c : Char} {cs rest : List Char}
    (hfirst : first c = true) (hmore : ∀ d ∈ cs, more d = true)
    (hrest : ∀ d ∈ rest.head?, more d = false) :
    LexemeClass.splitRun? first more (c :: cs ++ rest) = some (c :: cs, rest) := by
  have htake : rest.takeWhile more = [] ∧ rest.dropWhile more = rest := by
    cases rest with
    | nil => exact ⟨rfl, rfl⟩
    | cons d rest =>
      have hd : more d = false := hrest d rfl
      simp [hd]
  rw [List.cons_append, LexemeClass.splitRun?, if_pos hfirst, List.takeWhile_append_of_pos hmore,
    List.dropWhile_append_of_pos hmore, htake.1, htake.2, List.append_nil]

theorem splitComment?_of_ne {c : Char} {cs : List Char} (h : c ≠ '/') :
    LexemeClass.splitComment? (c :: cs) = none := by
  unfold LexemeClass.splitComment?
  split
  · rename_i heq
    cases heq
    exact absurd rfl h
  · rfl

namespace Lexeme

/-- A class matches where none of the classes `before` it in the table does. -/
theorem first?_of_split? (before : List LexemeClass) {after : List LexemeClass}
    {cls : LexemeClass} {cs matched rest : List Char}
    (htable : LexemeClass.table = before ++ cls :: after)
    (hbefore : ∀ other ∈ before, other.split? cs = none)
    (h : cls.split? cs = some (matched, rest)) : first? cs = some ⟨cls, matched, rest⟩ := by
  have hnone : before.findSome? (ofClass? · cs) = none :=
    List.findSome?_eq_none_iff.2 fun other hother => by rw [ofClass?, hbefore other hother]; rfl
  rw [first?, htable, List.findSome?_append, hnone, Option.none_or,
    List.findSome?_cons, ofClass?, h]
  rfl

theorem first?_word {c : Char} {cs rest : List Char} (hfirst : isWordStart c = true)
    (hmore : ∀ d ∈ cs, isWordRest d = true) (hrest : ∀ d ∈ rest.head?, isWordRest d = false) :
    first? (c :: cs ++ rest) = some ⟨.word, c :: cs, rest⟩ := by
  have hrange := toNat_of_isWordStart hfirst
  have hblank : isBlank c = false := isBlank_eq_false (by omega) (by omega)
  have hslash : c ≠ '/' := by
    intro heq
    subst heq
    cases hfirst
  refine first?_of_split? [.blank, .comment] rfl ?_ (splitRun?_append hfirst hmore hrest)
  simp [LexemeClass.split?, LexemeClass.splitRun?, hblank, splitComment?_of_ne hslash]

theorem first?_numeral {c : Char} {cs rest : List Char} (hfirst : c.isDigit = true)
    (hmore : ∀ d ∈ cs, d.isDigit = true) (hrest : ∀ d ∈ rest.head?, d.isDigit = false) :
    first? (c :: cs ++ rest) = some ⟨.numeral, c :: cs, rest⟩ := by
  have hrange := toNat_of_isDigit hfirst
  have hblank : isBlank c = false := isBlank_eq_false (by omega) (by omega)
  have hslash : c ≠ '/' := by
    intro heq
    subst heq
    cases hfirst
  have hword : isWordStart c = false := by
    apply Bool.eq_false_iff.2
    intro hword
    have hletter := toNat_of_isWordStart hword
    omega
  refine first?_of_split? [.blank, .comment, .word] rfl ?_ (splitRun?_append hfirst hmore hrest)
  simp [LexemeClass.split?, LexemeClass.splitRun?, hblank, hword, splitComment?_of_ne hslash]

end Lexeme

/-! ### Strings -/

/-- A text in which every character is shown is closed by the quote behind it, and
by none before. -/
theorem splitBody?_encode {cs : List Char} (hshown : ∀ c ∈ cs, isHidden c = false)
    (rest : List Char) : splitBody? (encode cs ++ '"' :: rest) = some (encode cs, rest) := by
  induction cs with
  | nil => rfl
  | cons c cs ih =>
    have htail := ih fun d hd => hshown d (List.mem_cons_of_mem c hd)
    have hhead : isHidden c = false := hshown c List.mem_cons_self
    cases hletter : escapeLetter? c with
    | some letter =>
      have hencode : encode (c :: cs) = '\\' :: letter :: encode cs := by
        simp [encode, encodeChar, hletter]
      have hne : letter ≠ '\n' := by
        intro heq
        subst heq
        have hback := escaped?_of_escapeLetter? hletter
        cases hback
      rw [hencode, List.cons_append, List.cons_append, splitBody?, if_neg hne, htail]
      rfl
    | none =>
      have hencode : encode (c :: cs) = c :: encode cs := by
        simp [encode, encodeChar, hletter, hhead]
      have hquote : c ≠ '"' := by
        intro heq
        subst heq
        cases hletter
      have hbackslash : c ≠ '\\' := by
        intro heq
        subst heq
        cases hletter
      rw [hencode, List.cons_append, splitBody?, if_neg hbackslash, htail]
      · rfl
      · exact hquote
      · rintro d ds rfl _
        exact hbackslash rfl

theorem toList_quote (text : String) :
    (quote text).toList = '"' :: (encode text.toList ++ ['"']) := by
  rw [quote, String.toList_ofList]
  rfl

theorem decodeQuoted_quote {text : String} (hshown : ∀ c ∈ text.toList, isHidden c = false) :
    String.ofList (decodeQuoted (quote text).toList) = text := by
  have hbody : ((quote text).toList.drop 1).dropLast = encode text.toList := by
    rw [toList_quote, List.drop_one, List.tail_cons, List.dropLast_concat]
  rw [decodeQuoted, hbody, decode_encode_of_shown hshown, String.ofList_toList]

/-- A quoted text that is closed is a lexeme. -/
theorem Lexeme.first?_of_splitQuoted? {cs matched rest : List Char}
    (h : splitQuoted? cs = some (matched, rest)) : first? cs = some ⟨.quoted, matched, rest⟩ := by
  refine first?_of_split? [.blank, .comment, .word, .numeral] rfl ?_ h
  unfold splitQuoted? at h
  split at h
  · simp [LexemeClass.split?, LexemeClass.splitRun?, splitComment?_of_ne,
      show isBlank '"' = false from rfl, show isWordStart '"' = false from rfl]
  · cases h

theorem Lexeme.first?_quoted {text : String} (hshown : ∀ c ∈ text.toList, isHidden c = false)
    (rest : List Char) :
    first? ((quote text).toList ++ rest) = some ⟨.quoted, (quote text).toList, rest⟩ := by
  refine first?_of_splitQuoted? ?_
  rw [toList_quote, List.cons_append, List.append_assoc]
  show (splitBody? (encode text.toList ++ '"' :: rest)).map _ = _
  rw [splitBody?_encode hshown]
  rfl

/-! ### Other texts -/

theorem Lexeme.first?_fixed {kind : TokenKind} {text : String} {rest : List Char}
    (h : .fixed kind text ∈ LexemeClass.table) (hrest : Parts kind rest) :
    first? (text.toList ++ rest) = some ⟨.fixed kind text, text.toList, rest⟩ := by
  cases kind <;> simp [LexemeClass.table] at h
  all_goals
    subst h
    rcases rest with _ | ⟨c, rest⟩ <;> try rfl
  -- A longer text begins with this one, so the next character counts.
  all_goals
    have hc : goesOn _ c = false := hrest c rfl
    have hne := beq_eq_false_iff_ne.1 hc
    simp [first?, LexemeClass.table, ofClass?, LexemeClass.split?, LexemeClass.splitRun?,
      LexemeClass.splitComment?, splitQuoted?, LexemeClass.splitFixed?, isBlank, inRanges,
      blankRanges, isWordStart, hne, hne.symm]

/-! ### What is written is read -/

theorem goesOn_ofWord (word : String) :
    goesOn (.ofWord word) = isWordRest ∧ TokenKind.ofWord word ≠ .string := by
  rcases TokenKind.ofWord_cases word with h | h
  · rw [h]
    exact ⟨rfl, by decide⟩
  · generalize TokenKind.ofWord word = kind at h
    cases kind <;> simp [TokenKind.reservedWords] at h
    all_goals exact ⟨rfl, by decide⟩

theorem write_of_ne {spelling : Spelling} (h : spelling.1 ≠ .string) :
    spelling.write = spelling.2 := by
  obtain ⟨kind, text⟩ := spelling
  unfold Spelling.write
  split
  · rename_i heq
    cases heq
    exact absurd rfl h
  · rename_i heq
    cases heq
    rfl

theorem ne_string_of_fixed {kind : TokenKind} {text : String}
    (h : .fixed kind text ∈ LexemeClass.table) : kind ≠ .string := by
  intro heq
  subst heq
  simp [LexemeClass.table] at h

/-- What is written is read back, if nothing behind it goes on with the lexeme. -/
theorem Lexeme.first?_write {kind : TokenKind} {text : String} {rest : List Char}
    (h : Spelled kind text) (hshown : Spelling.Shown (kind, text)) (hrest : Parts kind rest) :
    ∃ lexeme, first? ((Spelling.write (kind, text)).toList ++ rest) = some lexeme ∧
      lexeme.token? = some (kind, text) ∧ lexeme.rest = rest := by
  cases h with
  | word hkind htext hfirst hmore =>
    subst hkind
    obtain ⟨hgoesOn, hne⟩ := goesOn_ofWord text
    rw [Parts, hgoesOn] at hrest
    rw [write_of_ne hne, htext]
    refine ⟨_, first?_word hfirst hmore hrest, ?_, rfl⟩
    rw [token?, LexemeClass.token?, ← htext, String.ofList_toList]
  | numeral htext hfirst hmore =>
    rw [write_of_ne (show TokenKind.integer ≠ .string by decide), htext]
    refine ⟨_, first?_numeral hfirst hmore hrest, ?_, rfl⟩
    rw [token?, LexemeClass.token?, ← htext, String.ofList_toList]
  | quoted text =>
    refine ⟨_, first?_quoted (hshown rfl) rest, ?_, rfl⟩
    rw [token?, LexemeClass.token?, decodeQuoted_quote (hshown rfl)]
  | fixed h =>
    rw [write_of_ne (ne_string_of_fixed h)]
    exact ⟨_, first?_fixed h hrest, rfl, rfl⟩

end BraceLang
