import BraceLang.Proofs.Scan.Gaps

/-!
# The units of a quoted text

Between the quotes of a quoted text stand *units*: plain characters, and pairs of a
backslash and another character (`QuotedUnit`).  A text is read unit by unit as far as
that goes, and what is left then begins with no unit (`QuotedRun`); it decides whether
the text is closed.

Two functions of the library go over the body by themselves: `splitBody?` looks for its
end, and `decode` for what it stands for.  Here is one law for each of them, and both
split the body into the same units (`splitBody?_written`, `decode_written`).  A backslash
with nothing behind it is a case of the decoder that no body leads to
(`decodeWhole?_written`).  `Lexer.next?_quoted` puts them together.
-/

namespace BraceLang

namespace Text

/-- Where a number of bytes can be dropped, they are those of some characters. -/
theorem exists_front_of_dropBytes? {count : Nat} {cs rest : List Char}
    (h : dropBytes? count cs = some rest) :
    ∃ front, cs = front ++ rest ∧ count = byteSize front := by
  fun_induction dropBytes? count cs generalizing rest with
  | case1 cs =>
    cases h
    exact ⟨[], rfl, rfl⟩
  | case2 => cases h
  | case3 count c cs hle ih =>
    obtain ⟨front, rfl, hcount⟩ := ih h
    refine ⟨c :: front, rfl, ?_⟩
    rw [byteSize_cons]
    omega
  | case4 => cases h

/-! ## Units -/

/-- The letters that make an escape with a backslash in front, each with the character
that the escape stands for. -/
def escapes : List (Char × Char) :=
  [('n', '\n'), ('t', '\t'), ('r', '\r'), ('\\', '\\'), ('"', '"'), ('0', '\x00')]

theorem escaped?_eq_lookup (c : Char) : escaped? c = escapes.lookup c := by
  unfold escaped?
  split
  case h_7 hn ht hr hbackslash hquote hzero =>
    simp [escapes, List.lookup_cons, List.lookup_nil, beq_eq_false_iff_ne.2 hn,
      beq_eq_false_iff_ne.2 ht, beq_eq_false_iff_ne.2 hr, beq_eq_false_iff_ne.2 hbackslash,
      beq_eq_false_iff_ne.2 hquote, beq_eq_false_iff_ne.2 hzero]
  all_goals rfl

/-- A unit of the text between two quotes. -/
inductive QuotedUnit where
  /-- A character that stands for itself.  It can be a line feed. -/
  | plain (c : Char) (hquote : c ≠ '"') (hbackslash : c ≠ '\\')
  /-- A backslash and another character of the line. -/
  | pair (c : Char) (hline : c ≠ '\n')

namespace QuotedUnit

/-- How a unit is written. -/
def written : QuotedUnit → List Char
  | plain c _ _ => [c]
  | pair c _ => ['\\', c]

/-- What a unit stands for: an escape for one character, and any other pair for
itself. -/
def meaning : QuotedUnit → List Char
  | plain c _ _ => [c]
  | pair c _ =>
    match escapes.lookup c with
    | some d => [d]
    | none => ['\\', c]

theorem length_written_pos (unit : QuotedUnit) : 0 < unit.written.length := by
  cases unit <;> simp [written]

end QuotedUnit

variable {cs after : List Char}

/-- No unit begins the text. -/
def Unitless (cs : List Char) : Prop :=
  ∀ (unit : QuotedUnit) (more : List Char), cs ≠ unit.written ++ more

/-- The text begins with the units, and with no unit more. -/
structure QuotedRun (cs : List Char) (units : List QuotedUnit) (after : List Char) : Prop where
  text_eq : cs = units.flatMap QuotedUnit.written ++ after
  maximal : Unitless after

/-- No unit begins at the end, at a quote, or at a backslash with a line feed or nothing
behind it, and one does everywhere else. -/
theorem unitless_iff : Unitless cs ↔
    cs = [] ∨ (∃ rest, cs = '"' :: rest) ∨ cs = ['\\'] ∨ ∃ rest, cs = '\\' :: '\n' :: rest := by
  constructor
  · intro h
    cases cs with
    | nil => exact .inl rfl
    | cons c rest =>
      by_cases hquote : c = '"'
      · subst hquote
        exact .inr (.inl ⟨rest, rfl⟩)
      · by_cases hbackslash : c = '\\'
        · subst hbackslash
          cases rest with
          | nil => exact .inr (.inr (.inl rfl))
          | cons d rest =>
            by_cases hline : d = '\n'
            · subst hline
              exact .inr (.inr (.inr ⟨rest, rfl⟩))
            · exact absurd rfl (h (.pair d hline) rest)
        · exact absurd rfl (h (.plain c hquote hbackslash) rest)
  · rintro h (⟨c, hquote, hbackslash⟩ | ⟨c, hline⟩) more heq
    · rcases h with rfl | ⟨rest, rfl⟩ | rfl | ⟨rest, rfl⟩ <;> cases heq <;> contradiction
    · rcases h with rfl | ⟨rest, rfl⟩ | rfl | ⟨rest, rfl⟩ <;> cases heq
      contradiction

/-- Every text is read unit by unit as far as that goes. -/
theorem exists_quotedRun (cs : List Char) : ∃ units after, QuotedRun cs units after := by
  by_cases h : Unitless cs
  · exact ⟨[], cs, rfl, h⟩
  · simp only [Unitless, ne_eq, Classical.not_forall, Classical.not_not] at h
    obtain ⟨unit, more, htext⟩ := h
    have hshorter : more.length < cs.length := by
      have hpos := unit.length_written_pos
      rw [htext, List.length_append]
      omega
    obtain ⟨units, after, hmore, hafter⟩ := exists_quotedRun more
    refine ⟨unit :: units, after, ?_, hafter⟩
    rw [htext, hmore, List.flatMap_cons, List.append_assoc]
termination_by cs.length

/-! ## The end of the body -/

theorem splitBody?_unit (unit : QuotedUnit) (cs : List Char) :
    splitBody? (unit.written ++ cs) =
      (splitBody? cs).map fun split => (unit.written ++ split.1, split.2) := by
  cases unit with
  | plain c hquote hbackslash =>
    show splitBody? (c :: cs) = _
    rw [splitBody?, if_neg hbackslash]
    · rfl
    · exact hquote
    · rintro d ds rfl _
      exact hbackslash rfl
  | pair c hline =>
    show splitBody? ('\\' :: c :: cs) = _
    rw [splitBody?, if_neg hline]
    rfl

/-- The end of a body is looked for behind its units. -/
theorem splitBody?_written (units : List QuotedUnit) (cs : List Char) :
    splitBody? (units.flatMap QuotedUnit.written ++ cs) =
      (splitBody? cs).map fun split => (units.flatMap QuotedUnit.written ++ split.1, split.2) := by
  induction units with
  | nil =>
    show splitBody? cs = _
    cases splitBody? cs <;> rfl
  | cons unit units ih =>
    rw [List.flatMap_cons, List.append_assoc, splitBody?_unit, ih, Option.map_map]
    cases splitBody? cs with
    | none => rfl
    | some split => simp

/-- Where no unit begins, the body ends if there is a quote. -/
theorem splitBody?_of_unitless (h : Unitless cs) (hopen : ∀ rest, cs ≠ '"' :: rest) :
    splitBody? cs = none := by
  rcases unitless_iff.1 h with rfl | ⟨rest, rfl⟩ | rfl | ⟨rest, rfl⟩
  · rfl
  · exact absurd rfl (hopen rest)
  · rfl
  · rfl

/-! ## What the body stands for -/

theorem decode_unit (unit : QuotedUnit) (cs : List Char) :
    decode (unit.written ++ cs) = unit.meaning ++ decode cs := by
  cases unit with
  | plain c hquote hbackslash => exact decode_cons_of_ne hbackslash cs
  | pair c hline =>
    show decode ('\\' :: c :: cs) = _
    rw [decode, escaped?_eq_lookup, QuotedUnit.meaning]
    cases escapes.lookup c <;> rfl

/-- A body is decoded unit by unit. -/
theorem decode_written (units : List QuotedUnit) :
    decode (units.flatMap QuotedUnit.written) = units.flatMap QuotedUnit.meaning := by
  induction units with
  | nil => rfl
  | cons unit units ih => rw [List.flatMap_cons, decode_unit, ih, List.flatMap_cons]

/-- The decoder without its case for a backslash with nothing behind it: it has no value
where it would come to that case. -/
def decodeWhole? : List Char → Option (List Char)
  | [] => some []
  | ['\\'] => none
  | '\\' :: c :: rest =>
    match escaped? c with
    | some d => (decodeWhole? rest).map (d :: ·)
    | none => (decodeWhole? rest).map ('\\' :: c :: ·)
  | c :: rest => (decodeWhole? rest).map (c :: ·)

theorem decodeWhole?_unit (unit : QuotedUnit) (cs : List Char) :
    decodeWhole? (unit.written ++ cs) = (decodeWhole? cs).map (unit.meaning ++ ·) := by
  cases unit with
  | plain c hquote hbackslash =>
    show decodeWhole? (c :: cs) = _
    rw [decodeWhole?]
    · rfl
    · exact fun heq _ => hbackslash heq
    · exact fun _ _ heq _ => hbackslash heq
  | pair c hline =>
    show decodeWhole? ('\\' :: c :: cs) = _
    rw [decodeWhole?, escaped?_eq_lookup, QuotedUnit.meaning]
    cases escapes.lookup c <;> rfl

/-- No body leads the decoder to a backslash with nothing behind it. -/
theorem decodeWhole?_written (units : List QuotedUnit) :
    decodeWhole? (units.flatMap QuotedUnit.written) =
      some (decode (units.flatMap QuotedUnit.written)) := by
  induction units with
  | nil => rfl
  | cons unit units ih =>
    rw [List.flatMap_cons, decodeWhole?_unit, ih, decode_unit]
    rfl

end Text

/-! ## A lexer on a character -/

open Text

/-- No lexeme begins where no class matches. -/
theorem Lexeme.first?_eq_none_iff {cs : List Char} :
    first? cs = none ↔ ∀ cls ∈ LexemeClass.table, cls.split? cs = none := by
  simp only [first?, ofClass?, List.findSome?_eq_none_iff, Option.map_eq_none_iff]

namespace Lexer

variable {lexer : Lexer} {cs matched rest : List Char}

theorem follows_of_unread? (h : lexer.unread? = some cs) :
    Follows lexer ⟨cs, lexer.offset, lexer.file⟩ :=
  ⟨exists_front_of_dropBytes? h, rfl, rfl⟩

/-- What is unread behind some characters. -/
theorem unread?_advance (h : lexer.unread? = some (matched ++ rest)) :
    (lexer.advance (byteSize matched)).unread? = some rest := by
  obtain ⟨front, hsource, hoffset⟩ := exists_front_of_dropBytes? h
  show dropBytes? (lexer.offset + byteSize matched) lexer.source.toList = some rest
  rw [hsource, hoffset, ← byteSize_append, ← List.append_assoc, dropBytes?_byteSize_append]

/-- A token that is made of the unread characters is the next one. -/
theorem next?_of_lexed {spelling : Spelling} (h : Lexed spelling matched rest)
    (hunread : lexer.unread? = some (matched ++ rest)) :
    lexer.next? = some (⟨spelling.1, spelling.2, lexer.spanOf (byteSize matched)⟩,
      lexer.advance (byteSize matched)) := by
  have hne : matched ++ rest ≠ [] := by
    intro hnil
    have hempty := (List.append_eq_nil_iff.1 hnil).1
    cases h with
    | lexeme hfirst => exact Lexeme.ne_nil_of_first? hfirst hempty
    | illegal => cases hempty
  have hnext := @Scanner.next_of_lexed ⟨matched ++ rest, lexer.offset, lexer.file⟩ rest spelling
    matched h rfl
  rw [next?, if_neg (fun hend => hne ((follows_of_unread? hunread).atEnd_iff.1 hend)), hunread,
    Option.map_some, hnext]
  rfl

/-! ## The next token at a quote -/

theorem lexed_of_quotedRun {units : List QuotedUnit} (h : QuotedRun cs units ('"' :: rest)) :
    Lexed (.string, String.ofList (units.flatMap QuotedUnit.meaning))
      ('"' :: (units.flatMap QuotedUnit.written ++ ['"'])) rest := by
  have hsplit : splitQuoted? ('"' :: cs) =
      some ('"' :: (units.flatMap QuotedUnit.written ++ ['"']), rest) := by
    rw [h.text_eq, splitQuoted?, splitBody?_written]
    simp [splitBody?]
  have happend := append_of_splitQuoted? hsplit
  refine @Lexed.lexeme .quoted _ _ _ ?_ ?_
  · rw [happend]
    exact Lexeme.first?_of_splitQuoted? hsplit
  · rw [LexemeClass.token?, decodeQuoted, List.drop_one, List.tail_cons, List.dropLast_concat,
      decode_written]

theorem first?_eq_none_of_quotedRun {units : List QuotedUnit} {after : List Char}
    (h : QuotedRun cs units after) (hopen : ∀ rest, after ≠ '"' :: rest) :
    Lexeme.first? ('"' :: cs) = none := by
  have hsplit : splitQuoted? ('"' :: cs) = none := by
    rw [h.text_eq, splitQuoted?, splitBody?_written, splitBody?_of_unitless h.maximal hopen]
    rfl
  refine Lexeme.first?_eq_none_iff.2 ?_
  simp [LexemeClass.table, LexemeClass.split?, hsplit, splitRun?_eq_none, splitComment?_of_ne,
    LexemeClass.splitFixed?]
  decide

/-- At a quote there is a run of units.  If a quote is behind it, the next token is a string
over both quotes, and its text is what the units stand for, one by one.  Otherwise the text is not
closed, and the quote is an illegal token by itself. -/
theorem next?_quoted (h : lexer.unread? = some ('"' :: cs)) :
    (∃ units after, QuotedRun cs units after) ∧
    ∀ units after, QuotedRun cs units after →
      (∀ rest, after = '"' :: rest →
        let body := units.flatMap QuotedUnit.written
        let size := byteSize ('"' :: (body ++ ['"']))
        lexer.next? = some (⟨.string, String.ofList (units.flatMap QuotedUnit.meaning),
            lexer.spanOf size⟩, lexer.advance size) ∧
          (lexer.advance size).unread? = some rest ∧ decodeWhole? body = some (decode body)) ∧
      ((∀ rest, after ≠ '"' :: rest) →
        (after = [] ∨ after = ['\\'] ∨ ∃ rest, after = '\\' :: '\n' :: rest) ∧
          lexer.next? = some (⟨.illegal, "\"", lexer.spanOf 1⟩, lexer.advance 1) ∧
          (lexer.advance 1).unread? = some cs) := by
  refine ⟨exists_quotedRun cs, fun units after hrun => ⟨?_, fun hopen => ⟨?_, ?_, ?_⟩⟩⟩
  · rintro rest rfl
    have hlexed := lexed_of_quotedRun hrun
    have hunread : lexer.unread? =
        some ('"' :: (units.flatMap QuotedUnit.written ++ ['"']) ++ rest) := by
      rw [h, hrun.text_eq]
      simp
    exact ⟨next?_of_lexed hlexed hunread, unread?_advance hunread, decodeWhole?_written units⟩
  · rcases unitless_iff.1 hrun.maximal with hend | ⟨rest, hquote⟩ | hlast | hline
    · exact .inl hend
    · exact absurd hquote (hopen rest)
    · exact .inr (.inl hlast)
    · exact .inr (.inr hline)
  · exact next?_of_lexed (.illegal (first?_eq_none_of_quotedRun hrun hopen)) h
  · exact @unread?_advance lexer ['"'] cs h

/-- Only some pairs are escapes, and a backslash in front of a backslash is no beginning of
another pair.  The quote behind the string is not closed. -/
theorem next?_quoted_pairs :
    let lexer : Lexer := ⟨"say \"a\\n\\q\\\\\" \"b\\", 4, "pairs"⟩
    let last : Lexer := lexer.advance 10
    lexer.unread? = some "\"a\\n\\q\\\\\" \"b\\".toList ∧
      lexer.next? = some (⟨.string, "a\n\\q\\", lexer.spanOf 9⟩, lexer.advance 9) ∧
      last.unread? = some "\"b\\".toList ∧
      last.next? = some (⟨.illegal, "\"", last.spanOf 1⟩, last.advance 1) := by
  intro lexer last
  have hunread : lexer.unread? = some "\"a\\n\\q\\\\\" \"b\\".toList := by decide
  have hlast : last.unread? = some "\"b\\".toList := by decide
  refine ⟨hunread, ?_, hlast, ?_⟩
  · exact (((next?_quoted hunread).2
      [.plain 'a' (by decide) (by decide), .pair 'n' (by decide), .pair 'q' (by decide),
        .pair '\\' (by decide)] _ ⟨rfl, unitless_iff.2 (.inr (.inl ⟨_, rfl⟩))⟩).1 _ rfl).1
  · exact (((next?_quoted hlast).2 [.plain 'b' (by decide) (by decide)] ['\\']
      ⟨rfl, unitless_iff.2 (.inr (.inr (.inl rfl)))⟩).2 (by simp)).2.1

end Lexer

end BraceLang
