import BraceLang.Proofs.Scan.Tiling

/-!
# Gaps

A scanner passes over blanks and comments (`Scanner.next_gap`), and what it makes of the
characters in front of a gap does not depend on anything else behind them.

`Lexed.again` says so of one token: when it is made of some characters, it is made of them
again wherever a blank or the end is behind them.  A quote that is not closed is the
exception, since a text behind it can close it.  Every token of a source is made of the
characters in its span (`lexed_of_mem_tokens`).
-/

namespace BraceLang

open Text

variable {scanner : Scanner} {gap rest : List Char}

/-! ## Gaps -/

/-- Blanks, and comments with the line feeds that close them. -/
inductive Gap : List Char → Prop where
  | nil : Gap []
  | blank {c : Char} {gap : List Char} (h : isBlank c = true) (hmore : Gap gap) : Gap (c :: gap)
  | comment {cs gap : List Char} (h : '\n' ∉ cs) (hmore : Gap gap) :
      Gap ('/' :: '/' :: (cs ++ '\n' :: gap))

/-- A gap at the end of a text: the last comment need not be closed. -/
inductive LastGap : List Char → Prop where
  | closed {gap : List Char} (h : Gap gap) : LastGap gap
  | unclosed {gap cs : List Char} (h : Gap gap) (hcomment : '\n' ∉ cs) :
      LastGap (gap ++ '/' :: '/' :: cs)

theorem Lexeme.first?_comment {cs : List Char} (h : '\n' ∉ cs)
    (hrest : ∀ c ∈ rest.head?, c = '\n') :
    first? ('/' :: '/' :: (cs ++ rest)) = some ⟨.comment, '/' :: '/' :: cs, rest⟩ := by
  refine first?_of_split? [.blank] rfl ?_ ?_
  · simp [LexemeClass.split?, LexemeClass.splitRun?, show isBlank '/' = false from rfl]
  · have hline : ∀ c ∈ cs, decide (c ≠ '\n') = true := fun c hc =>
      decide_eq_true fun heq => h (heq ▸ hc)
    have hclose : rest.takeWhile (fun c => decide (c ≠ '\n')) = [] ∧
        rest.dropWhile (fun c => decide (c ≠ '\n')) = rest := by
      cases rest with
      | nil => exact ⟨rfl, rfl⟩
      | cons c rest =>
        obtain rfl : c = '\n' := hrest c rfl
        exact ⟨rfl, rfl⟩
    rw [LexemeClass.split?, LexemeClass.splitComment?, List.takeWhile_append_of_pos hline,
      List.dropWhile_append_of_pos hline, hclose.1, hclose.2, List.append_nil]

namespace Scanner

theorem past_past (matched more : List Char) :
    (scanner.past matched (more ++ rest)).past more rest = scanner.past (matched ++ more) rest := by
  simp [past, Nat.add_assoc]

/-- A blank is passed over, alone or with those behind it. -/
theorem next_blank {c : Char} {cs : List Char} (h : isBlank c = true)
    (hrest : scanner.rest = c :: cs) : scanner.next = (scanner.past [c] cs).next := by
  have hfirst := Lexeme.first?_blank h cs
  rw [← hrest] at hfirst
  rw [next_of_first? hfirst]
  show (scanner.past (c :: cs.takeWhile isBlank) (cs.dropWhile isBlank)).next = _
  cases cs with
  | nil => rfl
  | cons d ds =>
    -- A run of blanks is one lexeme, and what is left of it behind its first blank is one too.
    by_cases hblank : isBlank d = true
    · have hsecond : Lexeme.first? (scanner.past [c] (d :: ds)).rest = _ :=
        Lexeme.first?_blank hblank ds
      rw [next_of_first? hsecond, List.takeWhile_cons_of_pos hblank,
        List.dropWhile_cons_of_pos hblank]
      show _ = ((scanner.past [c] (d :: ds)).past (d :: ds.takeWhile isBlank)
        (ds.dropWhile isBlank)).next
      simp [past, Nat.add_assoc]
    · rw [List.takeWhile_cons_of_neg hblank, List.dropWhile_cons_of_neg hblank]

/-- A comment is passed over. -/
theorem next_comment {cs : List Char} (h : '\n' ∉ cs) (hend : ∀ c ∈ rest.head?, c = '\n')
    (hrest : scanner.rest = '/' :: '/' :: (cs ++ rest)) :
    scanner.next = (scanner.past ('/' :: '/' :: cs) rest).next := by
  have hfirst := Lexeme.first?_comment h hend
  rw [← hrest] at hfirst
  rw [next_of_first? hfirst]
  rfl

/-- Every gap is passed over. -/
theorem next_gap (h : Gap gap) (hrest : scanner.rest = gap ++ rest) :
    scanner.next = (scanner.past gap rest).next := by
  induction h generalizing scanner with
  | nil =>
    obtain ⟨_, offset, file⟩ := scanner
    obtain rfl : _ = rest := hrest
    rfl
  | @blank c gap h _ ih =>
    have hmore : (scanner.past [c] (gap ++ rest)).next =
        ((scanner.past [c] (gap ++ rest)).past gap rest).next := ih rfl
    rw [past_past] at hmore
    exact (next_blank h hrest).trans hmore
  | @comment cs gap h _ ih =>
    have hsplit : scanner.rest = '/' :: '/' :: (cs ++ '\n' :: (gap ++ rest)) := by
      rw [hrest]
      simp
    -- The comment ends before its line feed, which is a blank by itself.
    let line := scanner.past ('/' :: '/' :: cs) (['\n'] ++ (gap ++ rest))
    have hfeed : line.next = (line.past ['\n'] (gap ++ rest)).next := next_blank rfl rfl
    have hmore : (line.past ['\n'] (gap ++ rest)).next =
        ((line.past ['\n'] (gap ++ rest)).past gap rest).next := ih rfl
    have hwhole : (line.past ['\n'] (gap ++ rest)).past gap rest =
        scanner.past ('/' :: '/' :: (cs ++ '\n' :: gap)) rest := by
      simp [line, past, Nat.add_assoc]
    rw [hwhole] at hmore
    exact (next_comment h (by simp) hsplit).trans (hfeed.trans hmore)

/-- After the last gap there is the end. -/
theorem tokens_lastGap (h : LastGap scanner.rest) :
    TokenSource.tokens scanner =
      [.eof ⟨scanner.offset + byteSize scanner.rest, scanner.file⟩] := by
  have hnext : scanner.next = (scanner.past scanner.rest []).next := by
    generalize hgap : scanner.rest = gap at h
    cases h with
    | closed h => exact next_gap h (by rw [hgap, List.append_nil])
    | @unclosed gap cs h hcomment =>
      have hlast : (scanner.past gap ('/' :: '/' :: cs ++ [])).next =
          ((scanner.past gap ('/' :: '/' :: cs ++ [])).past ('/' :: '/' :: cs) []).next :=
        next_comment hcomment (by simp) rfl
      rw [past_past] at hlast
      exact (next_gap h (by rw [hgap, List.append_nil])).trans hlast
  have hend : TokenSource.next scanner = _ := hnext.trans (next_of_nil rfl)
  rw [Cursor.tokens_of_eof (congrArg (fun step => step.1.kind) hend), hend]
  rfl

end Scanner

/-! ## Lexemes before a blank -/

/-- There is a blank, or nothing. -/
def Blanked (rest : List Char) : Prop :=
  ∀ c ∈ rest.head?, isBlank c = true

theorem isWordRest_eq_false {c : Char} (h : isBlank c = true) : isWordRest c = false := by
  refine Bool.eq_false_iff.2 fun hword => ?_
  have hbounds : 48 ≤ c.toNat ∧ c.toNat ≤ 122 := by
    rcases Bool.or_eq_true_iff.1 hword with hletter | hlow
    · rcases Bool.or_eq_true_iff.1 hletter with halpha | hdigit
      · have := toNat_of_isWordStart (Bool.or_eq_true_iff.2 (.inl halpha))
        omega
      · have := toNat_of_isDigit hdigit
        omega
    · rw [eq_of_beq hlow]
      decide
  rw [isBlank_eq_false (by omega) (by omega)] at h
  cases h

theorem isDigit_eq_false {c : Char} (h : isBlank c = true) : c.isDigit = false := by
  refine Bool.eq_false_iff.2 fun hdigit => ?_
  have hbounds := toNat_of_isDigit hdigit
  rw [isBlank_eq_false (by omega) (by omega)] at h
  cases h

/-- No lexeme goes on with a blank. -/
theorem goesOn_eq_false (kind : TokenKind) {c : Char} (h : isBlank c = true) :
    goesOn kind c = false := by
  have hne : ∀ d : Char, isBlank d = false → (c == d) = false := fun d hd =>
    beq_eq_false_iff_ne.2 fun heq => by rw [heq, hd] at h; cases h
  cases kind with
  | integer => exact isDigit_eq_false h
  | assignment | not | less | greater => exact hne '=' rfl
  | slash => exact hne '/' rfl
  | identifier | letWord | returnWord | fnWord | ifWord | elseWord | trueWord | falseWord =>
    exact isWordRest_eq_false h
  | _ => rfl

/-- Where a quoted text ends does not depend on what is behind it. -/
theorem splitBody?_append {cs body : List Char} (h : splitBody? cs = some (body, rest))
    (rest' : List Char) : splitBody? (body ++ '"' :: rest') = some (body, rest') := by
  fun_induction splitBody? cs generalizing body rest with
  | case1 => cases h
  | case2 =>
    cases h
    rfl
  | case3 => cases h
  | case4 c tail hc ih =>
    obtain ⟨split, hsplit, heq⟩ := Option.map_eq_some_iff.1 h
    cases heq
    rw [List.cons_append, List.cons_append, splitBody?, if_neg hc, ih hsplit]
    rfl
  | case5 => cases h
  | case6 c tail hquote hpair hc ih =>
    obtain ⟨split, hsplit, heq⟩ := Option.map_eq_some_iff.1 h
    cases heq
    rw [List.cons_append, splitBody?, if_neg hc, ih hsplit]
    · rfl
    · exact hquote
    · exact fun _ _ hbackslash => absurd hbackslash hc

theorem splitQuoted?_append {cs matched : List Char} (h : splitQuoted? cs = some (matched, rest))
    (rest' : List Char) : splitQuoted? (matched ++ rest') = some (matched, rest') := by
  unfold splitQuoted? at h
  split at h
  · obtain ⟨split, hsplit, heq⟩ := Option.map_eq_some_iff.1 h
    cases heq
    show (splitBody? (split.1 ++ ['"'] ++ rest')).map _ = _
    rw [List.append_assoc, List.singleton_append, splitBody?_append hsplit]
    rfl
  · cases h

/-- No fixed text has a blank in it. -/
theorem isBlank_of_fixed {kind : TokenKind} {text : String} {c : Char}
    (h : .fixed kind text ∈ LexemeClass.table) (hc : c ∈ text.toList) : isBlank c = false := by
  have hall : ∀ cls ∈ LexemeClass.table,
      (match cls with
        | .fixed _ text => text.toList.all fun c => !isBlank c
        | _ => true) = true := by decide
  simpa using List.all_eq_true.1 (hall _ h) c hc

theorem splitRun?_eq_none {first more : Char → Bool} {c : Char} {cs : List Char} :
    LexemeClass.splitRun? first more (c :: cs) = none ↔ first c = false := by
  unfold LexemeClass.splitRun?
  split <;> simp_all

/-- Where no lexeme begins, none begins before a blank, unless a quote opens. -/
theorem Lexeme.first?_eq_none_again {c : Char} {rest' : List Char} (h : first? (c :: rest) = none)
    (hquote : c ≠ '"') (hblank : Blanked rest') : first? (c :: rest') = none := by
  have hnone : ∀ cls ∈ LexemeClass.table, cls.split? (c :: rest) = none := fun cls hcls =>
    Option.map_eq_none_iff.1 (List.findSome?_eq_none_iff.1 h cls hcls)
  refine List.findSome?_eq_none_iff.2 fun cls hcls => Option.map_eq_none_iff.2 ?_
  have hcls' := hnone cls hcls
  cases cls with
  | blank | word | numeral => exact splitRun?_eq_none.2 (splitRun?_eq_none.1 hcls')
  | comment =>
    refine splitComment?_of_ne fun hslash => ?_
    have hfixed := hnone (.fixed .slash "/") (by decide)
    subst hslash
    simp [LexemeClass.split?, LexemeClass.splitFixed?] at hfixed
  | quoted =>
    show splitQuoted? (c :: rest') = none
    unfold splitQuoted?
    split
    · rename_i heq
      cases heq
      exact absurd rfl hquote
    · rfl
  | fixed kind text =>
    have hsame : text.toList.isPrefixOf (c :: rest') = true →
        text.toList.isPrefixOf (c :: rest) = true := by
      intro hprefix
      have hfree : ∀ d ∈ text.toList, isBlank d = false := fun d => isBlank_of_fixed hcls
      -- Only a fixed text of two characters could reach what is behind, where there is a blank.
      rcases htext : text.toList with _ | ⟨first, _ | ⟨second, more⟩⟩
      · rfl
      · rw [htext] at hprefix
        simpa using hprefix
      · rw [htext] at hprefix hfree
        cases rest' with
        | nil => simp at hprefix
        | cons d rest' =>
          have hd : second = d := by
            simp at hprefix
            exact hprefix.2.1
          have hyes := hblank d rfl
          rw [← hd, hfree second (by simp)] at hyes
          cases hyes
    simp only [LexemeClass.split?, LexemeClass.splitFixed?, ite_eq_right_iff, reduceCtorEq,
      imp_false, not_and] at hcls' ⊢
    exact fun hne hprefix => hcls' hne (hsame hprefix)

/-- A token is made again of the same characters before a blank, whatever was behind them when it
was made first. -/
theorem Lexed.again {spelling : Spelling} {matched rest' : List Char}
    (h : Lexed spelling matched rest) (hquote : spelling ≠ (.illegal, "\""))
    (hblank : Blanked rest') : Lexed spelling matched rest' := by
  cases h with
  | @lexeme cls _ _ _ hfirst hmade =>
    obtain ⟨hcls, hsplit⟩ := Lexeme.first?_eq_some hfirst
    refine .lexeme ?_ hmade
    cases cls with
    | blank | comment => cases hmade
    | word =>
      obtain ⟨c, cs, rfl, hstart, hmore⟩ := splitRun?_parts hsplit
      exact Lexeme.first?_word hstart hmore fun d hd => isWordRest_eq_false (hblank d hd)
    | numeral =>
      obtain ⟨c, cs, rfl, hstart, hmore⟩ := splitRun?_parts hsplit
      exact Lexeme.first?_numeral hstart hmore fun d hd => isDigit_eq_false (hblank d hd)
    | quoted => exact Lexeme.first?_of_splitQuoted? (splitQuoted?_append hsplit rest')
    | fixed kind text =>
      obtain rfl : matched = text.toList := eq_of_splitFixed? hsplit
      exact Lexeme.first?_fixed hcls fun d hd => goesOn_eq_false kind (hblank d hd)
  | @illegal c _ hfirst =>
    refine .illegal (Lexeme.first?_eq_none_again hfirst ?_ hblank)
    rintro rfl
    exact hquote rfl

/-- A scanner makes the token at once. -/
theorem Scanner.next_of_lexed {spelling : Spelling} {matched : List Char}
    (h : Lexed spelling matched rest) (hrest : scanner.rest = matched ++ rest) :
    scanner.next = (⟨spelling.1, spelling.2, scanner.spanOf matched⟩,
      scanner.past matched rest) := by
  cases h with
  | lexeme hfirst hmade =>
    rw [← hrest] at hfirst
    rw [next_of_first? hfirst, Lexeme.token?, hmade]
  | @illegal c _ hfirst =>
    have hcons : scanner.rest = c :: rest := hrest
    rw [next.eq_def]
    split
    · rename_i hnil
      rw [hcons] at hnil
      cases hnil
    · rename_i d ds hsplit
      rw [hcons] at hsplit
      cases hsplit
      split
      · rfl
      · rename_i lexeme hsome
        rw [hfirst] at hsome
        cases hsome

/-- Every token of a source is made of the characters in its span. -/
theorem lexed_of_mem_tokens {front cs : List Char} {token : Token}
    (hcs : cs = front ++ scanner.rest) (hoffset : scanner.offset = byteSize front)
    (h : token ∈ TokenSource.tokens scanner) (hne : token.kind ≠ .eof) :
    ∃ matched rest, slice? token.start.offset token.stop.offset cs = some matched ∧
      Lexed token.spelling matched rest := by
  fun_induction TokenSource.tokens scanner generalizing front with
  | case1 scanner heof =>
    obtain rfl := List.mem_singleton.1 h
    exact absurd heof hne
  | case2 scanner hfirst ih =>
    obtain ⟨gap, matched, htakes⟩ := scanner.exists_takes
    rcases List.mem_cons.1 h with rfl | hlater
    · refine ⟨matched, _, ?_, htakes.lexed hne⟩
      have hspan : (TokenSource.next scanner).1.span = _ := htakes.span_eq
      rw [Token.start, Token.stop, hspan, hcs, htakes.rest_eq, ← List.append_assoc]
      show slice? (scanner.offset + byteSize gap) (scanner.offset + byteSize gap + byteSize matched)
        _ = _
      rw [hoffset, ← byteSize_append]
      exact slice?_append _ _ _
    · have hmoved : (TokenSource.next scanner).2.offset = byteSize (front ++ (gap ++ matched)) := by
        show scanner.next.2.offset = _
        rw [htakes.offset_eq, hoffset, byteSize_append, byteSize_append, Nat.add_assoc]
      refine ih ?_ hmoved hlater
      rw [hcs, htakes.rest_eq]
      simp
      rfl

end BraceLang
