import BraceLang.Proofs.Scan.Languages

/-!
# The longest match

A scanner takes the first class of the table that matches, and this is the class that
matches most.

* `Lexeme.Longest` is the longest beginning of a text that any class accepts.  There is one
  only, the first match (`first?_eq_some_iff_longest`).
* `Munches` reads a text by the languages alone, always taking a longest beginning, and finds
  the tokens of the scanner (`munches_iff`).
* `Lone` lists the characters at which no lexeme begins (`lone_of_nowhere`,
  `nowhere_of_lone`).
* `Lexer.maximal_munch` collects what a lexer does on a character.
-/

namespace BraceLang

open Text

/-! ## The first match is the longest -/

namespace Lexeme

open LexemeClass

variable {cs : List Char} {lexeme : Lexeme}

/-- The lexeme is a beginning of the text that its class accepts, and no class accepts a
longer one. -/
structure Longest (cs : List Char) (lexeme : Lexeme) : Prop where
  mem : lexeme.cls ∈ table
  text_eq : cs = lexeme.matched ++ lexeme.rest
  accepts : lexeme.cls.Accepts lexeme.matched
  longest : ∀ cls ∈ table, ∀ matched rest, cs = matched ++ rest → cls.Accepts matched →
    matched.length ≤ lexeme.matched.length

/-- No class accepts a beginning of the text. -/
def Nowhere (cs : List Char) : Prop :=
  ∀ cls ∈ table, ∀ matched rest, cs = matched ++ rest → ¬ cls.Accepts matched

/-- The class that matches first matches more than every other one. -/
theorem length_lt_of_first? {other : LexemeClass} {less left : List Char}
    (h : first? cs = some lexeme) (hother : other ∈ table) (hne : other ≠ lexeme.cls)
    (hless : other.split? cs = some (less, left)) : less.length < lexeme.matched.length := by
  obtain ⟨before, cls, after, htable, hcls, hbefore⟩ := List.findSome?_eq_some_iff.1 h
  obtain ⟨⟨matched, rest⟩, hsplit, rfl⟩ := Option.map_eq_some_iff.1 hcls
  have hpairs := table_pairwise
  rw [htable, List.pairwise_append, List.pairwise_cons] at hpairs
  rw [htable, List.mem_append, List.mem_cons] at hother
  rcases hother with hfront | rfl | hback
  · have hnone := hbefore other hfront
    rw [ofClass?, hless] at hnone
    cases hnone
  · exact absurd rfl hne
  · exact hpairs.2.1.1 other hback hsplit hless

theorem longest_of_first? (h : first? cs = some lexeme) : Longest cs lexeme := by
  obtain ⟨hmem, hsplit⟩ := first?_eq_some h
  refine ⟨hmem, (append_of_first? h).symm, accepts_of_split? hsplit, ?_⟩
  intro cls hcls matched rest htext haccepts
  obtain ⟨longer, left, hlonger, hle⟩ :=
      @exists_split?_of_accepts cls matched rest hcls haccepts
  rw [← htext] at hlonger
  by_cases hne : cls = lexeme.cls
  · subst hne
    rw [hsplit] at hlonger
    cases hlonger
    exact hle
  · exact Nat.le_trans hle (Nat.le_of_lt (length_lt_of_first? h hcls hne hlonger))

theorem first?_eq_none_iff_nowhere : first? cs = none ↔ Nowhere cs := by
  rw [first?_eq_none_iff]
  constructor
  · rintro h cls hcls matched rest rfl haccepts
    obtain ⟨longer, left, hlonger, _⟩ :=
      @exists_split?_of_accepts cls matched rest hcls haccepts
    rw [h cls hcls] at hlonger
    cases hlonger
  · intro h cls hcls
    apply Option.eq_none_iff_forall_ne_some.2
    rintro ⟨matched, rest⟩ hsplit
    exact h cls hcls matched rest (split?_eq_some hsplit).1.symm (accepts_of_split? hsplit)

/-- There is no other longest beginning than the first match, not even in another class. -/
theorem first?_eq_some_iff_longest : first? cs = some lexeme ↔ Longest cs lexeme := by
  refine ⟨longest_of_first?, fun h => ?_⟩
  obtain ⟨first, hfirst⟩ : ∃ first, first? cs = some first := by
    apply Option.ne_none_iff_exists'.1
    intro hnone
    exact first?_eq_none_iff_nowhere.1 hnone _ h.mem _ _ h.text_eq h.accepts
  have hlongest := longest_of_first? hfirst
  obtain ⟨longer, left, hlonger, hle⟩ :=
    @exists_split?_of_accepts lexeme.cls lexeme.matched lexeme.rest h.mem h.accepts
  rw [← h.text_eq] at hlonger
  have hleast := h.longest _ hlongest.mem _ _ hlongest.text_eq hlongest.accepts
  have hcls : lexeme.cls = first.cls := by
    apply Decidable.byContradiction
    intro hne
    have hlt := length_lt_of_first? hfirst h.mem hne hlonger
    omega
  have heq : lexeme.matched ++ lexeme.rest = first.matched ++ first.rest :=
    h.text_eq.symm.trans hlongest.text_eq
  have hgreatest := hlongest.longest _ h.mem _ _ h.text_eq h.accepts
  obtain ⟨hmatched, hrest⟩ := List.append_inj heq (Nat.le_antisymm hgreatest hleast)
  obtain ⟨cls, matched, rest⟩ := lexeme
  subst hcls hmatched hrest
  exact hfirst

end Lexeme

/-! ## Reading by longest matches -/

section Munches

open Lexeme

variable {scanner : Scanner} {tokens : List Token}

/-- The tokens of a scanner that takes a longest beginning wherever a class accepts one, in
whatever order the classes stand. -/
inductive Munches : Scanner → List Token → Prop where
  | done {scanner : Scanner} (h : scanner.rest = []) : Munches scanner [.eof scanner.position]
  | skip {scanner : Scanner} {lexeme : Lexeme} {tokens : List Token}
      (h : Longest scanner.rest lexeme) (hmade : lexeme.token? = none)
      (hmore : Munches (scanner.past lexeme.matched lexeme.rest) tokens) : Munches scanner tokens
  | take {scanner : Scanner} {lexeme : Lexeme} {kind : TokenKind} {text : String}
      {tokens : List Token} (h : Longest scanner.rest lexeme)
      (hmade : lexeme.token? = some (kind, text))
      (hmore : Munches (scanner.past lexeme.matched lexeme.rest) tokens) :
      Munches scanner (⟨kind, text, scanner.spanOf lexeme.matched⟩ :: tokens)
  | illegal {scanner : Scanner} {c : Char} {cs : List Char} {tokens : List Token}
      (hrest : scanner.rest = c :: cs) (h : Nowhere scanner.rest)
      (hmore : Munches (scanner.past [c] cs) tokens) :
      Munches scanner (⟨.illegal, String.singleton c, scanner.spanOf [c]⟩ :: tokens)

theorem Scanner.tokens_of_next {token : Token} {moved : Scanner}
    (h : scanner.next = (token, moved)) (hne : token.kind ≠ .eof) :
    TokenSource.tokens scanner = token :: TokenSource.tokens moved := by
  have hnext : TokenSource.next scanner = (token, moved) := h
  rw [Cursor.tokens_of_ne_eof (by rw [hnext]; exact hne), hnext]

/-- The token of a lexeme, and those behind it. -/
theorem Scanner.tokens_of_lexed {spelling : Spelling} {matched rest : List Char}
    (h : Lexed spelling matched rest) (hrest : scanner.rest = matched ++ rest) :
    TokenSource.tokens scanner =
      ⟨spelling.1, spelling.2, scanner.spanOf matched⟩ ::
        TokenSource.tokens (scanner.past matched rest) := by
  let token : Token := ⟨spelling.1, spelling.2, scanner.spanOf matched⟩
  have hlexed : Lexed token.spelling matched rest := h
  exact Scanner.tokens_of_next (Scanner.next_of_lexed h hrest) hlexed.standsFor.ne_eof

theorem Munches.tokens_eq (h : Munches scanner tokens) :
    tokens = TokenSource.tokens scanner := by
  induction h with
  | @done scanner hnil =>
    have hnext : TokenSource.next scanner = (.eof scanner.position, scanner) :=
      Scanner.next_of_nil hnil
    rw [Cursor.tokens_of_eof (by rw [hnext]; rfl), hnext]
  | @skip scanner lexeme tokens hlongest hmade _ ih =>
    have hnext := Scanner.next_of_first? (first?_eq_some_iff_longest.2 hlongest)
    rw [hmade] at hnext
    rw [ih]
    exact (Cursor.tokens_congr hnext).symm
  | @take scanner lexeme kind text tokens hlongest hmade _ ih =>
    have hfirst := first?_eq_some_iff_longest.2 hlongest
    have hnext := Scanner.next_of_first? hfirst
    rw [hmade] at hnext
    rw [ih]
    exact (Scanner.tokens_of_next hnext (kind_ne_eof_of_first? hfirst hmade)).symm
  | @illegal scanner c cs tokens hrest hnowhere _ ih =>
    have hlexed : Lexed (.illegal, String.singleton c) [c] cs :=
      .illegal (first?_eq_none_iff_nowhere.2 (hrest ▸ hnowhere))
    rw [ih]
    exact (Scanner.tokens_of_next (Scanner.next_of_lexed hlexed hrest) (by simp)).symm

/-- The tokens of a scanner begin with the next one. -/
theorem Scanner.exists_tokens_eq (scanner : Scanner) :
    ∃ tokens, TokenSource.tokens scanner = scanner.next.1 :: tokens := by
  by_cases heof : (TokenSource.next scanner).1.kind = .eof
  · exact ⟨[], Cursor.tokens_of_eof heof⟩
  · exact ⟨_, Cursor.tokens_of_ne_eof heof⟩

theorem exists_munches (scanner : Scanner) : ∃ tokens, Munches scanner tokens := by
  cases hrest : scanner.rest with
  | nil => exact ⟨_, .done hrest⟩
  | cons c cs =>
    cases hfirst : first? scanner.rest with
    | none =>
      obtain ⟨tokens, hmore⟩ := exists_munches (scanner.past [c] cs)
      exact ⟨_, .illegal hrest (first?_eq_none_iff_nowhere.1 hfirst) hmore⟩
    | some lexeme =>
      have hlongest := longest_of_first? hfirst
      have hshorter := length_rest_lt_of_first? hfirst
      obtain ⟨tokens, hmore⟩ := exists_munches (scanner.past lexeme.matched lexeme.rest)
      cases hmade : lexeme.token? with
      | none => exact ⟨_, .skip hlongest hmade hmore⟩
      | some made => exact ⟨_, .take hlongest hmade hmore⟩
termination_by scanner.rest.length
decreasing_by
  · rw [hrest]
    exact Nat.lt_succ_self _
  · exact hshorter

/-- Longest matches give the tokens of the scanner, and no others. -/
theorem munches_iff : Munches scanner tokens ↔ tokens = TokenSource.tokens scanner := by
  refine ⟨Munches.tokens_eq, ?_⟩
  rintro rfl
  obtain ⟨tokens, h⟩ := exists_munches scanner
  rwa [h.tokens_eq] at h

end Munches

/-! ## Where no lexeme begins -/

section Lone

open LexemeClass

variable {c : Char} {cs : List Char}

/-- The character `c`, in front of `cs`, begins no lexeme. -/
inductive Lone : Char → List Char → Prop where
  /-- A quote that is not closed behind a run of units. -/
  | quote {cs : List Char}
      (h : ∀ (units : List QuotedUnit) (rest : List Char),
        cs ≠ units.flatMap QuotedUnit.written ++ '"' :: rest) : Lone '"' cs
  | ampersand {cs : List Char} (h : cs.head? ≠ some '&') : Lone '&' cs
  | bar {cs : List Char} (h : cs.head? ≠ some '|') : Lone '|' cs
  /-- A character that begins no lexeme at all. -/
  | other {c : Char} {cs : List Char} (hblank : isBlank c = false)
      (h : ∀ cls ∈ table, ∀ more, ¬ cls.Accepts (c :: more)) : Lone c cs

/-- The first character of a fixed text is a fixed text too, but for two of them. -/
theorem exists_fixed_singleton {kind : TokenKind} {text : String} (h : fixed kind text ∈ table)
    (hc : text.toList.head? = some c) :
    c = '&' ∨ c = '|' ∨ ∃ cls ∈ table, cls.Accepts [c] := by
  have hall : ∀ cls ∈ table,
      (match cls with
        | .fixed _ text => text.toList.head?.all fun c =>
          c == '&' || c == '|' || table.any fun other =>
            match other with
            | .fixed _ text' => [c] == text'.toList
            | _ => false
        | _ => true) = true := by decide
  have hhead := hall _ h
  simp only [hc, Option.all_some, Bool.or_eq_true, beq_iff_eq, List.any_eq_true] at hhead
  rcases hhead with (hand | hor) | ⟨other, hmem, hother⟩
  · exact .inl hand
  · exact .inr (.inl hor)
  · cases other with
    | fixed kind' text' => exact .inr (.inr ⟨_, hmem, eq_of_beq hother⟩)
    | _ => cases hother

theorem lone_of_nowhere (h : Lexeme.Nowhere (c :: cs)) : Lone c cs := by
  by_cases hquote : c = '"'
  · subst hquote
    refine .quote ?_
    rintro units rest rfl
    exact h .quoted (by decide) ('"' :: (units.flatMap QuotedUnit.written ++ ['"'])) rest (by simp)
      ⟨units, rfl⟩
  by_cases hand : c = '&'
  · subst hand
    refine .ampersand fun hhead => ?_
    obtain ⟨rest, rfl⟩ := List.head?_eq_some_iff.1 hhead
    exact h (.fixed .and "&&") (by decide) ['&', '&'] rest rfl rfl
  by_cases hor : c = '|'
  · subst hor
    refine .bar fun hhead => ?_
    obtain ⟨rest, rfl⟩ := List.head?_eq_some_iff.1 hhead
    exact h (.fixed .or "||") (by decide) ['|', '|'] rest rfl rfl
  have hsingle : ∀ cls ∈ table, ¬ cls.Accepts [c] := fun cls hcls => h cls hcls [c] cs rfl
  have hrun : ∀ {first more : Char → Bool} {ds : List Char}, IsRun first more (c :: ds) →
      IsRun first more [c] := by
    rintro first more ds ⟨d, es, heq, hfirst, _⟩
    cases heq
    exact ⟨c, [], rfl, hfirst, List.forall_mem_nil _⟩
  refine .other (Bool.eq_false_iff.2 fun hblank => ?_) fun cls hcls more haccepts => ?_
  · exact hsingle .blank (by decide) ⟨c, [], rfl, hblank, List.forall_mem_nil _⟩
  · cases cls with
    | blank | word | numeral => exact hsingle _ hcls (hrun haccepts)
    | comment =>
      obtain ⟨line, heq, _⟩ := haccepts
      cases heq
      exact hsingle (.fixed .slash "/") (by decide) rfl
    | quoted =>
      obtain ⟨units, heq⟩ := haccepts
      cases heq
      exact hquote rfl
    | fixed kind text =>
      have hhead : text.toList.head? = some c := by
        rw [← show c :: more = text.toList from haccepts]
        rfl
      rcases exists_fixed_singleton hcls hhead with heq | heq | ⟨other, hmem, hother⟩
      · exact hand heq
      · exact hor heq
      · exact hsingle other hmem hother

theorem nowhere_of_lone (h : Lone c cs) : Lexeme.Nowhere (c :: cs) := by
  intro cls hcls matched rest htext haccepts
  obtain ⟨d, more, rfl, hbegins⟩ := begins_of_accepts hcls haccepts
  obtain ⟨rfl, hcs⟩ := List.cons.inj htext
  cases h with
  | quote h =>
    obtain rfl : cls = .quoted :=
      (by decide : ∀ cls ∈ table, cls.begins '"' = true → cls = .quoted) cls hcls hbegins
    obtain ⟨units, heq⟩ := haccepts
    cases heq
    exact h units rest (by rw [hcs]; simp)
  | ampersand h =>
    obtain rfl : cls = .fixed .and "&&" :=
      (by decide : ∀ cls ∈ table, cls.begins '&' = true → cls = .fixed .and "&&") cls hcls hbegins
    cases haccepts
    exact h (by rw [hcs]; rfl)
  | bar h =>
    obtain rfl : cls = .fixed .or "||" :=
      (by decide : ∀ cls ∈ table, cls.begins '|' = true → cls = .fixed .or "||") cls hcls hbegins
    cases haccepts
    exact h (by rw [hcs]; rfl)
  | other _ h => exact h cls hcls more haccepts

end Lone

/-! ## The next token -/

namespace TokenKind

/-- The words that are no identifiers. -/
theorem ofWord_ne_identifier_iff {word : String} :
    ofWord word ≠ identifier ↔
      word ∈ ["let", "return", "fn", "if", "else", "true", "false"] := by
  constructor
  · intro hne
    rcases ofWord_cases word with hname | hreserved
    · exact absurd hname hne
    · exact List.mem_map_of_mem (f := Prod.fst) hreserved
  · simp only [List.mem_cons, List.not_mem_nil, or_false]
    rintro (rfl | rfl | rfl | rfl | rfl | rfl | rfl) <;> decide

/-- A word has the kind that the table of reserved words gives it. -/
theorem ofWord_eq_iff {word : String} {kind : TokenKind} (hne : kind ≠ identifier) :
    ofWord word = kind ↔ (word, kind) ∈ reservedWords := by
  constructor
  · rintro rfl
    exact (ofWord_cases word).resolve_left hne
  · intro h
    simp only [reservedWords, List.mem_cons, Prod.mk.injEq, List.not_mem_nil, or_false] at h
    rcases h with ⟨rfl, rfl⟩ | ⟨rfl, rfl⟩ | ⟨rfl, rfl⟩ | ⟨rfl, rfl⟩ | ⟨rfl, rfl⟩ | ⟨rfl, rfl⟩ |
      ⟨rfl, rfl⟩ <;> decide

end TokenKind

/-- No lexeme makes an illegal token. -/
theorem Lexeme.kind_ne_illegal_of_first? {cs : List Char} {lexeme : Lexeme} {kind : TokenKind}
    {text : String} (h : first? cs = some lexeme) (hmade : lexeme.token? = some (kind, text)) :
    kind ≠ .illegal := by
  obtain ⟨cls, matched, rest⟩ := lexeme
  have hcls : cls ∈ LexemeClass.table := (first?_eq_some h).1
  cases cls with
  | blank | comment => cases hmade
  | word =>
    cases hmade
    intro heq
    have hreserved := (TokenKind.ofWord_eq_iff (by decide)).1 heq
    simp [TokenKind.reservedWords] at hreserved
  | numeral | quoted =>
    cases hmade
    decide
  | fixed kind text =>
    cases hmade
    rintro rfl
    simp [LexemeClass.table] at hcls

/-- Where a lexeme begins, the token behind it is no illegal one, or does not begin there. -/
theorem Scanner.illegal_behind {scanner : Scanner} {lexeme : Lexeme}
    (h : Lexeme.first? scanner.rest = some lexeme) :
    scanner.next.1.kind ≠ .illegal ∨ scanner.offset < scanner.next.1.start.offset := by
  have hnext := Scanner.next_of_first? h
  cases hmade : lexeme.token? with
  | some made =>
    obtain ⟨kind, text⟩ := made
    rw [hmade] at hnext
    rw [hnext]
    exact .inl (Lexeme.kind_ne_illegal_of_first? h hmade)
  | none =>
    right
    rw [hmade] at hnext
    rw [hnext]
    obtain ⟨gap, matched, htakes⟩ := (scanner.past lexeme.matched lexeme.rest).exists_takes
    rw [Token.start, htakes.span_eq]
    show scanner.offset < scanner.offset + byteSize lexeme.matched + byteSize gap
    have hpos := byteSize_pos (Lexeme.ne_nil_of_first? h)
    omega

namespace Lexer

variable {lexer : Lexer} {c : Char} {cs : List Char}

/-- A word is the longest run of its characters. -/
theorem next?_word (h : lexer.unread? = some (c :: cs)) (hword : isWordStart c = true) :
    let run := c :: cs.takeWhile isWordRest
    lexer.next? = some (⟨.ofWord (String.ofList run), String.ofList run,
      lexer.spanOf (byteSize run)⟩, lexer.advance (byteSize run)) := by
  have hmore : ∀ d ∈ cs.takeWhile isWordRest, isWordRest d = true := fun d hd =>
    List.all_eq_true.1 List.all_takeWhile d hd
  have hrest : ∀ d ∈ (cs.dropWhile isWordRest).head?, isWordRest d = false := by
    intro d hd
    have hhead := List.head?_dropWhile_not isWordRest cs
    rw [Option.mem_def.1 hd] at hhead
    simpa using hhead
  have hsplit : c :: cs = c :: cs.takeWhile isWordRest ++ cs.dropWhile isWordRest := by
    rw [List.cons_append, List.takeWhile_append_dropWhile]
  have hlexed := Lexed.of_first? (Lexeme.first?_word hword hmore hrest) rfl
  exact next?_of_lexed hlexed (by rw [h, hsplit])

/-- A character by itself makes an illegal token just where no lexeme begins. -/
theorem next?_eq_illegal_iff (h : lexer.unread? = some (c :: cs)) :
    lexer.next? = some (⟨.illegal, String.singleton c, lexer.spanOf c.utf8Size⟩,
      lexer.advance c.utf8Size) ↔ Lexeme.first? (c :: cs) = none := by
  refine ⟨fun hnext => ?_, fun hnone => next?_of_lexed (.illegal hnone) h⟩
  apply Option.eq_none_iff_forall_ne_some.2
  intro lexeme hfirst
  obtain ⟨moved, hmoved, _⟩ := (follows_of_unread? h).next
  rw [hnext] at hmoved
  have htoken := (Prod.mk.inj (Option.some.inj hmoved)).1
  rcases @Scanner.illegal_behind ⟨c :: cs, lexer.offset, lexer.file⟩ _ hfirst with hkind | hlt
  · exact hkind (congrArg Token.kind htoken).symm
  · rw [← htoken] at hlt
    exact Nat.lt_irrefl _ hlt

/-- The lexer reads `cs`, the characters behind its position, by longest matches. -/
structure MaximalMunch (lexer : Lexer) (cs : List Char) : Prop where
  /-- Where classes match, the first of them matches more than every other one. -/
  longest : (∃ cls ∈ LexemeClass.table, cls.split? cs ≠ none) →
    ∃ lexeme, Lexeme.first? cs = some lexeme ∧ Lexeme.Longest cs lexeme ∧
      ∀ other ∈ LexemeClass.table, other ≠ lexeme.cls → ∀ less left,
        other.split? cs = some (less, left) → less.length < lexeme.matched.length
  /-- The next token is the one that longest matches give, in whatever order the classes
  stand. -/
  munches : ∃ token tokens, (∀ others,
    Munches ⟨cs, lexer.offset, lexer.file⟩ others ↔ others = token :: tokens) ∧
      ∃ moved, lexer.next? = some (token, moved)
  /-- A word is a longest run. -/
  run : ∀ lexeme, Lexeme.first? cs = some lexeme → lexeme.cls = .word →
    ∃ c more, cs = c :: more ∧ isWordStart c = true ∧
      lexeme.matched = c :: more.takeWhile isWordRest
  /-- The kind of a word is by the whole run. -/
  word : ∀ c more, cs = c :: more → isWordStart c = true →
    let run := c :: more.takeWhile isWordRest
    let kind := TokenKind.ofWord (String.ofList run)
    lexer.next? = some (⟨kind, String.ofList run, lexer.spanOf (byteSize run)⟩,
        lexer.advance (byteSize run)) ∧
      (kind ≠ .identifier ↔
        String.ofList run ∈ ["let", "return", "fn", "if", "else", "true", "false"]) ∧
      ∀ keyword ≠ .identifier,
        (kind = keyword ↔ (String.ofList run, keyword) ∈ TokenKind.reservedWords)
  /-- A character is illegal by itself just where no class matches. -/
  illegal : ∀ c more, cs = c :: more →
    (lexer.next? = some (⟨.illegal, String.singleton c, lexer.spanOf c.utf8Size⟩,
        lexer.advance c.utf8Size) ↔ ∀ cls ∈ LexemeClass.table, cls.split? cs = none) ∧
      ((∀ cls ∈ LexemeClass.table, cls.split? cs = none) ↔ Lone c more)

/-- Wherever a lexer stands on a character, it reads by longest matches, and so the tokens of
the source are those that longest matches give. -/
theorem maximal_munch (h : lexer.unread? = some cs) :
    lexer.MaximalMunch cs ∧ ∀ file tokens,
      Munches (.ofSource lexer.source file) tokens ↔ tokens = tokenize lexer.source file := by
  refine ⟨⟨?_, ?_, ?_, ?_, ?_⟩, fun file tokens => munches_iff⟩
  · rintro ⟨cls, hcls, hsplit⟩
    obtain ⟨lexeme, hfirst⟩ : ∃ lexeme, Lexeme.first? cs = some lexeme := by
      apply Option.ne_none_iff_exists'.1
      intro hnone
      exact hsplit (Lexeme.first?_eq_none_iff.1 hnone cls hcls)
    exact ⟨lexeme, hfirst, Lexeme.longest_of_first? hfirst, fun other hother hne less left =>
      Lexeme.length_lt_of_first? hfirst hother hne⟩
  · obtain ⟨moved, hnext, _⟩ := (follows_of_unread? h).next
    obtain ⟨tokens, htokens⟩ :=
      Scanner.exists_tokens_eq ⟨cs, lexer.offset, lexer.file⟩
    exact ⟨_, tokens, fun others => by rw [munches_iff, htokens], moved, hnext⟩
  · intro lexeme hfirst hword
    have hsplit := (Lexeme.first?_eq_some hfirst).2
    rw [hword] at hsplit
    cases cs with
    | nil => cases hsplit
    | cons c more =>
      simp only [LexemeClass.split?, LexemeClass.splitRun?] at hsplit
      split at hsplit
      · rename_i hstart
        exact ⟨c, more, rfl, hstart, (Prod.mk.inj (Option.some.inj hsplit)).1.symm⟩
      · cases hsplit
  · rintro c more rfl hword
    exact ⟨next?_word h hword, TokenKind.ofWord_ne_identifier_iff,
      fun keyword hne => TokenKind.ofWord_eq_iff hne⟩
  · rintro c more rfl
    rw [← Lexeme.first?_eq_none_iff]
    exact ⟨next?_eq_illegal_iff h, Lexeme.first?_eq_none_iff_nowhere.trans
      ⟨lone_of_nowhere, nowhere_of_lone⟩⟩

/-- The first of two operators is a beginning of the one that is read, and the single
ampersand behind it is illegal. -/
theorem maximal_munch_operators :
    let lexer : Lexer := ⟨"x <=&y", 2, "munch"⟩
    let last : Lexer := lexer.advance 2
    lexer.unread? = some "<=&y".toList ∧
      (∃ lexeme, Lexeme.first? "<=&y".toList = some lexeme ∧ 1 < lexeme.matched.length) ∧
      last.unread? = some "&y".toList ∧
      last.next? = some (⟨.illegal, "&", last.spanOf 1⟩, last.advance 1) := by
  intro lexer last
  have hunread : lexer.unread? = some "<=&y".toList := by decide
  have hlast : last.unread? = some "&y".toList := by decide
  refine ⟨hunread, ?_, hlast, ?_⟩
  · obtain ⟨lexeme, hfirst, hlongest, _⟩ :=
      (maximal_munch hunread).1.longest ⟨.fixed .less "<", by decide, by decide⟩
    exact ⟨lexeme, hfirst,
      hlongest.longest (.fixed .lessEquals "<=") (by decide) ['<', '='] ['&', 'y'] rfl rfl⟩
  · have hillegal := (maximal_munch hlast).1.illegal '&' ['y'] rfl
    exact hillegal.1.2 (hillegal.2.2 (.ampersand (by decide)))

end Lexer

end BraceLang
