import BraceLang.Lexer
import BraceLang.Proofs.Scan.Scans

/-!
# The tokens of a source tile it

A scanner takes its tokens one behind the other and loses nothing of the source:
what it passes over between two tokens are blanks and comments (`Ignored`), and a
token stands for the characters in its span (`StandsFor`).

There are three groups.

* `Takes` is what one call of `Scanner.next` does with the unread part, and
  `exists_takes` says that every call does it.
* `Tiles` puts the calls together, token by token, and `tiles_tokens` is the
  induction over all of them.  `Tiling` says the same of the byte offsets of a
  whole source, with `slice?` for the characters between two offsets.
* A `Lexer` has no unread part but a byte offset, at which it cuts the source anew
  for each token.  `Follows` ties it to a scanner, and so the source is never cut
  inside a character (`Follows.take?_eq`).
-/

namespace BraceLang

open Text

/-! ## Parts of a text -/

namespace Text

/-- The characters from the byte offset `start` up to the byte offset `stop`, if
both are between two characters. -/
def slice? (start stop : Nat) (cs : List Char) : Option (List Char) :=
  if start ≤ stop then
    (dropBytes? start cs).bind fun rest =>
      (dropBytes? (stop - start) rest).map fun after => rest.take (rest.length - after.length)
  else none

/-- A slice between two parts of a text is what stands between them. -/
theorem slice?_append (before matched after : List Char) :
    slice? (byteSize before) (byteSize before + byteSize matched)
      (before ++ (matched ++ after)) = some matched := by
  unfold slice?
  rw [if_pos (Nat.le_add_right _ _), dropBytes?_byteSize_append, Option.bind_some,
    Nat.add_sub_cancel_left, dropBytes?_byteSize_append, Option.map_some, List.length_append,
    Nat.add_sub_cancel, List.take_left]

theorem byteSize_pos {cs : List Char} (h : cs ≠ []) : 0 < byteSize cs := by
  cases cs with
  | nil => exact absurd rfl h
  | cons c cs =>
    have hpos : 0 < c.utf8Size := Char.utf8Size_pos c
    rw [byteSize_cons]
    omega

theorem utf8ByteSize_ofList (cs : List Char) : (String.ofList cs).utf8ByteSize = byteSize cs := by
  induction cs with
  | nil => rfl
  | cons c cs ih =>
    rw [← List.singleton_append, String.ofList_append, String.utf8ByteSize_append, ih]
    simp

theorem utf8ByteSize_eq (source : String) : source.utf8ByteSize = byteSize source.toList := by
  rw [← utf8ByteSize_ofList, String.ofList_toList]

end Text

/-! ## Gaps -/

/-- The characters `gap` in front of `rest` are blanks and comments.  A comment has no
line feed in it, and goes on up to a line feed or the end of the text. -/
inductive Ignored : List Char → List Char → Prop where
  | nothing (rest : List Char) : Ignored [] rest
  | blank {c : Char} {gap rest : List Char} (h : isBlank c = true) (hmore : Ignored gap rest) :
      Ignored (c :: gap) rest
  | comment {cs gap rest : List Char} (h : '\n' ∉ cs) (hend : ∀ c ∈ (gap ++ rest).head?, c = '\n')
      (hmore : Ignored gap rest) : Ignored ('/' :: '/' :: (cs ++ gap)) rest

theorem Ignored.blanks {cs gap rest : List Char} (h : ∀ c ∈ cs, isBlank c = true)
    (hmore : Ignored gap rest) : Ignored (cs ++ gap) rest := by
  induction cs with
  | nil => exact hmore
  | cons c cs ih =>
    have htail := ih fun d hd => h d (List.mem_cons_of_mem c hd)
    exact .blank (h c List.mem_cons_self) htail

/-- A lexeme that makes no token can be ignored. -/
theorem Ignored.lexeme {cs gap rest : List Char} {lexeme : Lexeme}
    (h : Lexeme.first? cs = some lexeme) (hmade : lexeme.token? = none)
    (hrest : lexeme.rest = gap ++ rest) (hmore : Ignored gap rest) :
    Ignored (lexeme.matched ++ gap) rest := by
  obtain ⟨_, hsplit⟩ := Lexeme.first?_eq_some h
  obtain ⟨cls, matched, after⟩ := lexeme
  subst hrest
  cases cls with
  | blank =>
    obtain ⟨c, ds, rfl, hfirst, hblanks⟩ := splitRun?_parts hsplit
    exact .blank hfirst (.blanks hblanks hmore)
  | comment =>
    simp only [LexemeClass.split?, LexemeClass.splitComment?] at hsplit
    split at hsplit
    · rename_i ds
      simp only [Option.some.injEq, Prod.mk.injEq] at hsplit
      obtain ⟨rfl, hafter⟩ := hsplit
      refine .comment (fun hmem => ?_) (fun c hc => ?_) hmore
      · simpa using List.all_eq_true.1 List.all_takeWhile _ hmem
      · rw [← hafter] at hc
        have hhead := List.head?_dropWhile_not (fun d => decide (d ≠ '\n')) ds
        rw [Option.mem_def.1 hc] at hhead
        simpa using hhead
    · cases hsplit
  | word | numeral | quoted | fixed => cases hmade

/-! ## What a token stands for -/

/-- The token can stand for the characters: they are its text, except that a string
stands for characters between quotes. -/
structure StandsFor (token : Token) (matched : List Char) : Prop where
  ne_eof : token.kind ≠ .eof
  ne_nil : matched ≠ []
  text_eq : token.kind ≠ .string → token.text = String.ofList matched
  quoted : token.kind = .string → ∃ body, matched = '"' :: (body ++ ['"'])

theorem exists_body_of_splitQuoted? {cs matched rest : List Char}
    (h : splitQuoted? cs = some (matched, rest)) : ∃ body, matched = '"' :: (body ++ ['"']) := by
  unfold splitQuoted? at h
  split at h
  · obtain ⟨split, _, heq⟩ := Option.map_eq_some_iff.1 h
    cases heq
    exact ⟨split.1, rfl⟩
  · cases h

theorem eq_of_splitFixed? {text cs matched rest : List Char}
    (h : LexemeClass.splitFixed? text cs = some (matched, rest)) : matched = text := by
  unfold LexemeClass.splitFixed? at h
  split at h
  · cases h
    rfl
  · cases h

theorem text_eq_of_first? {cs : List Char} {lexeme : Lexeme} {kind : TokenKind} {text : String}
    (h : Lexeme.first? cs = some lexeme) (hmade : lexeme.token? = some (kind, text))
    (hkind : kind ≠ .string) : text = String.ofList lexeme.matched := by
  obtain ⟨_, hsplit⟩ := Lexeme.first?_eq_some h
  obtain ⟨cls, matched, rest⟩ := lexeme
  cases cls with
  | blank | comment => cases hmade
  | word | numeral => cases hmade; rfl
  | quoted => cases hmade; exact absurd rfl hkind
  | fixed =>
    cases hmade
    rw [eq_of_splitFixed? hsplit, String.ofList_toList]

theorem quoted_of_first? {cs : List Char} {lexeme : Lexeme} {text : String}
    (h : Lexeme.first? cs = some lexeme) (hmade : lexeme.token? = some (.string, text)) :
    ∃ body, lexeme.matched = '"' :: (body ++ ['"']) := by
  obtain ⟨hcls, hsplit⟩ := Lexeme.first?_eq_some h
  obtain ⟨cls, matched, rest⟩ := lexeme
  cases cls with
  | blank | comment | numeral => cases hmade
  | word =>
    simp only [Lexeme.token?, LexemeClass.token?, Option.some.injEq, Prod.mk.injEq] at hmade
    exact absurd hmade.1 (goesOn_ofWord _).2
  | quoted => exact exists_body_of_splitQuoted? hsplit
  | fixed kind =>
    simp only [Lexeme.token?, LexemeClass.token?, Option.some.injEq, Prod.mk.injEq] at hmade
    exact absurd hmade.1 (ne_string_of_fixed hcls)

/-- The token that a lexeme makes stands for the lexeme. -/
theorem standsFor_of_first? {cs : List Char} {lexeme : Lexeme} {kind : TokenKind} {text : String}
    (h : Lexeme.first? cs = some lexeme) (hmade : lexeme.token? = some (kind, text))
    (span : Span) : StandsFor ⟨kind, text, span⟩ lexeme.matched where
  ne_eof := Lexeme.kind_ne_eof_of_first? h hmade
  ne_nil := Lexeme.ne_nil_of_first? h
  text_eq hkind := text_eq_of_first? h hmade hkind
  quoted hkind := by
    obtain rfl : kind = .string := hkind
    exact quoted_of_first? h hmade

/-- A token of this spelling is made of the characters `matched`, if `rest` is behind them. -/
inductive Lexed : Spelling → List Char → List Char → Prop where
  | lexeme {cls : LexemeClass} {spelling : Spelling} {matched rest : List Char}
      (h : Lexeme.first? (matched ++ rest) = some ⟨cls, matched, rest⟩)
      (hmade : cls.token? matched = some spelling) : Lexed spelling matched rest
  | illegal {c : Char} {rest : List Char} (h : Lexeme.first? (c :: rest) = none) :
      Lexed (.illegal, String.singleton c) [c] rest

theorem Lexed.of_first? {cs : List Char} {lexeme : Lexeme} {spelling : Spelling}
    (h : Lexeme.first? cs = some lexeme) (hmade : lexeme.token? = some spelling) :
    Lexed spelling lexeme.matched lexeme.rest :=
  .lexeme (by rw [Lexeme.append_of_first? h, h]) hmade

/-- A token that is made of characters stands for them. -/
theorem Lexed.standsFor {token : Token} {matched rest : List Char}
    (h : Lexed token.spelling matched rest) : StandsFor token matched := by
  obtain ⟨kind, text, span⟩ := token
  generalize hspelling : Token.spelling ⟨kind, text, span⟩ = spelling at h
  cases h with
  | lexeme hfirst hmade =>
    cases hspelling
    exact standsFor_of_first? hfirst hmade span
  | illegal h =>
    obtain ⟨rfl, rfl⟩ := Prod.mk.inj hspelling
    exact ⟨by simp, by simp, fun _ => String.singleton_eq_ofList, by simp⟩

/-! ## One token -/

/-- The next token of a scanner is taken behind the gap `gap`, and `moved` is the
scanner behind it.  The end token stands for no characters, and nothing is left. -/
structure Takes (scanner : Scanner) (gap matched : List Char) (token : Token)
    (moved : Scanner) : Prop where
  rest_eq : scanner.rest = gap ++ (matched ++ moved.rest)
  ignored : Ignored gap (matched ++ moved.rest)
  span_eq : token.span =
    (scanner.past gap (matched ++ moved.rest)).spanOf matched
  offset_eq : moved.offset = scanner.offset + byteSize gap + byteSize matched
  file_eq : moved.file = scanner.file
  lexed : token.kind ≠ .eof → Lexed token.spelling matched moved.rest
  ended : token.kind = .eof → token.text = "EOF" ∧ matched = [] ∧ moved.rest = []

namespace Scanner

variable {scanner : Scanner}

/-- A token that is taken at once. -/
theorem takes_of_lexed {matched rest : List Char} {token : Token}
    (hrest : scanner.rest = matched ++ rest) (hspan : token.span = scanner.spanOf matched)
    (hlexed : Lexed token.spelling matched rest) :
    Takes scanner [] matched token (scanner.past matched rest) where
  rest_eq := hrest
  ignored := .nothing _
  span_eq := hspan
  offset_eq := rfl
  file_eq := rfl
  lexed _ := hlexed
  ended heof := absurd heof hlexed.standsFor.ne_eof

/-- A lexeme that makes no token widens the gap. -/
theorem takes_of_skip {lexeme : Lexeme} {gap matched : List Char} {token : Token}
    {moved : Scanner} (hfirst : Lexeme.first? scanner.rest = some lexeme)
    (hmade : lexeme.token? = none)
    (h : Takes (scanner.past lexeme.matched lexeme.rest) gap matched token moved) :
    Takes scanner (lexeme.matched ++ gap) matched token moved := by
  have hrest : lexeme.rest = gap ++ (matched ++ moved.rest) := h.rest_eq
  have hspan := h.span_eq
  have hoffset := h.offset_eq
  refine ⟨?_, .lexeme hfirst hmade hrest h.ignored, ?_, ?_, h.file_eq, h.lexed, h.ended⟩
  · rw [← Lexeme.append_of_first? hfirst, hrest, List.append_assoc]
  · rw [hspan]
    simp only [spanOf, position, past, byteSize_append, Nat.add_assoc]
  · rw [hoffset]
    simp only [past, byteSize_append, Nat.add_assoc]

/-- Every call takes a token. -/
theorem exists_takes (scanner : Scanner) :
    ∃ gap matched, Takes scanner gap matched scanner.next.1 scanner.next.2 := by
  fun_induction next scanner with
  | case1 scanner hrest =>
    exact ⟨[], [], rfl, .nothing _, rfl, rfl, rfl, fun hne => absurd rfl hne,
      fun _ => ⟨rfl, rfl, hrest⟩⟩
  | case2 scanner c cs hrest hfirst =>
    exact ⟨[], [c], takes_of_lexed hrest rfl (.illegal hfirst)⟩
  | case3 scanner c cs hrest lexeme hfirst hmade ih =>
    rw [← hrest] at hfirst
    obtain ⟨gap, matched, htakes⟩ := ih
    exact ⟨lexeme.matched ++ gap, matched, takes_of_skip hfirst hmade htakes⟩
  | case4 scanner c cs hrest lexeme hfirst kind text hmade =>
    have hparts := Lexeme.append_of_first? hfirst
    exact ⟨[], lexeme.matched, takes_of_lexed (hrest.trans hparts.symm) rfl
      (.of_first? hfirst hmade)⟩

end Scanner

/-! ## All tokens -/

/-- The tokens stand one behind the other in the text `cs` of the source `file`, which
begins at `offset`, with gaps between them and in front of the end. -/
inductive Tiles (file : String) : Nat → List Char → List Token → Prop where
  | last {offset : Nat} {gap : List Char} (h : Ignored gap []) :
      Tiles file offset gap [.eof ⟨offset + byteSize gap, file⟩]
  | token {offset : Nat} {gap matched rest : List Char} {token : Token} {tokens : List Token}
      (h : Ignored gap (matched ++ rest)) (hstands : StandsFor token matched)
      (hstart : token.start = ⟨offset + byteSize gap, file⟩)
      (hstop : token.stop = ⟨offset + byteSize gap + byteSize matched, file⟩)
      (hmore : Tiles file token.stop.offset rest tokens) :
      Tiles file offset (gap ++ (matched ++ rest)) (token :: tokens)

/-- The tokens of a scanner tile what is unread. -/
theorem tiles_tokens (scanner : Scanner) :
    Tiles scanner.file scanner.offset scanner.rest (TokenSource.tokens scanner) := by
  fun_induction TokenSource.tokens scanner with
  | case1 scanner heof =>
    obtain ⟨gap, matched, htakes⟩ := scanner.exists_takes
    obtain ⟨htext, rfl, hnil⟩ := htakes.ended heof
    have htoken : (TokenSource.next scanner).1 =
        .eof ⟨scanner.offset + byteSize gap, scanner.file⟩ := by
      have hspan := htakes.span_eq
      show scanner.next.1 = _
      generalize scanner.next.1 = token at heof htext hspan
      obtain ⟨kind, text, span⟩ := token
      obtain rfl : kind = .eof := heof
      obtain rfl : text = "EOF" := htext
      obtain rfl : span = _ := hspan
      rfl
    have hignored := htakes.ignored
    rw [htoken, htakes.rest_eq, hnil, List.append_nil, List.append_nil]
    rw [hnil] at hignored
    exact .last hignored
  | case2 scanner hne ih =>
    obtain ⟨gap, matched, htakes⟩ := scanner.exists_takes
    have hstart := congrArg Span.start htakes.span_eq
    have hstop := congrArg Span.stop htakes.span_eq
    have hoffset : scanner.next.2.offset = scanner.next.1.stop.offset := by
      rw [htakes.offset_eq, Token.stop, hstop]
      rfl
    have hmore : Tiles scanner.next.2.file scanner.next.2.offset scanner.next.2.rest _ := ih
    rw [htakes.file_eq, hoffset] at hmore
    rw [htakes.rest_eq]
    exact .token htakes.ignored (htakes.lexed hne).standsFor hstart hstop hmore

namespace Tiles

variable {file : String} {offset : Nat} {cs : List Char} {tokens : List Token}

/-- The last token, and no other, is the end. -/
theorem ends (h : Tiles file offset cs tokens) :
    ∃ others, tokens = others ++ [.eof ⟨offset + byteSize cs, file⟩] ∧
      ∀ token ∈ others, token.kind ≠ .eof := by
  induction h with
  | last h => exact ⟨[], rfl, List.forall_mem_nil _⟩
  | @token offset gap matched rest token tokens h hstands hstart hstop hmore ih =>
    obtain ⟨others, rfl, hothers⟩ := ih
    refine ⟨token :: others, ?_, List.forall_mem_cons.2 ⟨hstands.ne_eof, hothers⟩⟩
    simp only [hstop, byteSize_append, Nat.add_assoc, List.cons_append]

theorem le_start (h : Tiles file offset cs tokens) :
    ∀ token ∈ tokens, offset ≤ token.start.offset := by
  induction h with
  | last h => simp [Token.start, Token.eof]
  | @token offset gap matched rest token tokens h hstands hstart hstop hmore ih =>
    refine List.forall_mem_cons.2 ⟨?_, fun later hlater => ?_⟩
    · rw [hstart]
      exact Nat.le_add_right _ _
    · have hlast := ih later hlater
      rw [hstop] at hlast
      exact Nat.le_trans (Nat.le_trans (Nat.le_add_right _ _) (Nat.le_add_right _ _)) hlast

/-- No token begins before the ones in front of it have stopped. -/
theorem ordered (h : Tiles file offset cs tokens) :
    tokens.Pairwise fun token later => token.stop.offset ≤ later.start.offset := by
  induction h with
  | last h => exact List.pairwise_singleton _ _
  | token h hstands hstart hstop hmore ih => exact List.pairwise_cons.2 ⟨hmore.le_start, ih⟩

end Tiles

/-! ## The tokens of a source -/

/-- Where the last of the tokens stops, or `offset` if there is none. -/
def stopAfter (offset : Nat) : List Token → Nat
  | [] => offset
  | token :: tokens => stopAfter token.stop.offset tokens

/-- Each of the tokens stands behind what the tokens in front of it have taken. -/
theorem Tiles.split {file : String} {offset : Nat} {cs : List Char}
    {tokens earlier later : List Token} {token : Token} (h : Tiles file offset cs tokens)
    (hsplit : tokens = earlier ++ token :: later) :
    ∃ front gap matched rest, cs = front ++ (gap ++ (matched ++ rest)) ∧
      stopAfter offset earlier = offset + byteSize front ∧
      Ignored gap (matched ++ rest) ∧
      token.start = ⟨offset + byteSize front + byteSize gap, file⟩ ∧
      token.stop = ⟨offset + byteSize front + byteSize gap + byteSize matched, file⟩ ∧
      (token.kind ≠ .eof → StandsFor token matched) := by
  induction h generalizing earlier with
  | @last offset gap h =>
    cases earlier with
    | nil =>
      cases hsplit
      refine ⟨[], gap, [], [], by simp, rfl, h, rfl, rfl, fun hne => absurd rfl hne⟩
    | cons first earlier => simp at hsplit
  | @token offset gap matched rest first tokens h hstands hstart hstop hmore ih =>
    cases earlier with
    | nil =>
      cases hsplit
      exact ⟨[], gap, matched, rest, rfl, rfl, h, hstart, hstop, fun _ => hstands⟩
    | cons second earlier =>
      cases hsplit
      obtain ⟨front, between, own, after, rfl, hearlier, hignored, hbegin, hend, hown⟩ := ih rfl
      refine ⟨gap ++ (matched ++ front), between, own, after, by simp, ?_, hignored, ?_, ?_, hown⟩
      · rw [stopAfter, hearlier, hstop]
        simp only [byteSize_append, Nat.add_assoc]
      · simp only [hbegin, hstop, byteSize_append, Nat.add_assoc]
      · simp only [hend, hstop, byteSize_append, Nat.add_assoc]

/-- The tokens tile the source: what stands between two of them can be ignored, each
stands for the characters in its span, and the last one is the end of the source.
Every slice is there, so that no offset is inside a character or past the end. -/
structure Tiling (source file : String) (tokens : List Token) : Prop where
  ends : ∃ others, tokens = others ++ [.eof ⟨source.utf8ByteSize, file⟩] ∧
    ∀ token ∈ others, token.kind ≠ .eof
  named : ∀ token ∈ tokens, token.start.file = file ∧ token.stop.file = file
  covers : ∀ token ∈ tokens, token.kind ≠ .eof →
    token.start.offset < token.stop.offset ∧
    ∃ matched, slice? token.start.offset token.stop.offset source.toList = some matched ∧
      StandsFor token matched
  ordered : tokens.Pairwise fun token later => token.stop.offset ≤ later.start.offset
  gaps : ∀ earlier token later, tokens = earlier ++ token :: later →
    ∃ gap rest, slice? (stopAfter 0 earlier) token.start.offset source.toList = some gap ∧
      dropBytes? token.start.offset source.toList = some rest ∧ Ignored gap rest

theorem Tiles.tiling {source file : String} {tokens : List Token}
    (h : Tiles file 0 source.toList tokens) : Tiling source file tokens where
  ends := by
    have hends := h.ends
    rwa [Nat.zero_add, ← utf8ByteSize_eq] at hends
  named token hmem := by
    obtain ⟨earlier, later, hsplit⟩ := List.append_of_mem hmem
    obtain ⟨front, gap, matched, rest, -, -, -, hstart, hstop, -⟩ := h.split hsplit
    rw [hstart, hstop]
    exact ⟨rfl, rfl⟩
  covers token hmem hne := by
    obtain ⟨earlier, later, hsplit⟩ := List.append_of_mem hmem
    obtain ⟨front, gap, matched, rest, hsource, -, -, hstart, hstop, hstands⟩ := h.split hsplit
    have hown := hstands hne
    have hpos := byteSize_pos hown.ne_nil
    rw [hstart, hstop, hsource, Nat.zero_add, ← byteSize_append, ← List.append_assoc]
    exact ⟨Nat.lt_add_of_pos_right hpos, matched, slice?_append _ _ _, hown⟩
  ordered := h.ordered
  gaps earlier token later hsplit := by
    obtain ⟨front, gap, matched, rest, hsource, hearlier, hignored, hstart, -, -⟩ := h.split hsplit
    refine ⟨gap, matched ++ rest, ?_, ?_, hignored⟩
    · rw [hearlier, hstart, hsource, Nat.zero_add]
      exact slice?_append _ _ _
    · rw [hstart, hsource, Nat.zero_add, ← byteSize_append, ← List.append_assoc]
      exact dropBytes?_byteSize_append _ _

/-! ## Cutting the source anew for each token -/

/-- The first `count` tokens of a lexer, unless it comes to stand inside a character. -/
def Lexer.take? : Nat → Lexer → Option (List Token)
  | 0, _ => some []
  | count + 1, lexer =>
    lexer.next?.bind fun step => (take? count step.2).map (step.1 :: ·)

/-- The lexer stands between two characters, and the scanner in the same place. -/
structure Follows (lexer : Lexer) (scanner : Scanner) : Prop where
  rest_eq : ∃ front, lexer.source.toList = front ++ scanner.rest ∧ lexer.offset = byteSize front
  offset_eq : scanner.offset = lexer.offset
  file_eq : scanner.file = lexer.file

namespace Follows

variable {lexer : Lexer} {scanner : Scanner}

theorem atEnd_iff (h : Follows lexer scanner) : lexer.atEnd = true ↔ scanner.rest = [] := by
  obtain ⟨⟨front, hsource, hoffset⟩, -, -⟩ := h
  rw [Lexer.atEnd, decide_eq_true_iff, utf8ByteSize_eq, hsource, hoffset, byteSize_append]
  constructor
  · intro hle
    refine Decidable.byContradiction fun hne => ?_
    have hpos := byteSize_pos hne
    omega
  · intro hnil
    rw [hnil, byteSize_nil]
    exact Nat.le_refl _

theorem unread?_eq (h : Follows lexer scanner) : lexer.unread? = some scanner.rest := by
  obtain ⟨⟨front, hsource, hoffset⟩, -, -⟩ := h
  rw [Lexer.unread?, hsource, hoffset, dropBytes?_byteSize_append]

/-- A lexer and the scanner in the same place give the same token, and go on to the
same place. -/
theorem next (h : Follows lexer scanner) :
    ∃ moved, lexer.next? = some (scanner.next.1, moved) ∧ Follows moved scanner.next.2 := by
  unfold Lexer.next?
  by_cases hnil : scanner.rest = []
  · refine ⟨lexer, ?_, ?_⟩
    · rw [if_pos (h.atEnd_iff.2 hnil), Scanner.next_of_nil hnil, Scanner.position, h.offset_eq,
        h.file_eq]
      rfl
    · rwa [Scanner.next_of_nil hnil]
  · rw [if_neg (fun hend => hnil (h.atEnd_iff.1 hend)), h.unread?_eq, Option.map_some,
      ← h.offset_eq, ← h.file_eq]
    obtain ⟨gap, matched, htakes⟩ := scanner.exists_takes
    obtain ⟨⟨front, hsource, hoffset⟩, hsame, -⟩ := h
    refine ⟨_, rfl, ⟨front ++ (gap ++ matched), ?_, ?_⟩, rfl, htakes.file_eq⟩
    · rw [hsource, htakes.rest_eq, List.append_assoc, List.append_assoc]
    · show scanner.next.2.offset = _
      rw [htakes.offset_eq, hsame, hoffset, byteSize_append, byteSize_append, Nat.add_assoc]

/-- Over all tokens, the lexer is never inside a character. -/
theorem take?_eq (h : Follows lexer scanner) (count : Nat) :
    lexer.take? count = some (TokenSource.take count scanner) := by
  induction count generalizing lexer scanner with
  | zero => rfl
  | succ count ih =>
    obtain ⟨moved, hnext, hmoved⟩ := h.next
    rw [Lexer.take?, hnext, Option.bind_some, ih hmoved]
    rfl

end Follows

theorem follows_ofSource (source : String) (file : Option String) :
    Follows (.ofSource source file) (.ofSource source file) :=
  ⟨⟨[], rfl, rfl⟩, rfl, rfl⟩

/-- The tokens of a source of tokens are the first that it gives. -/
theorem TokenSource.take_length_tokens {σ : Type} [TokenSource σ] (source : σ) :
    take (tokens source).length source = tokens source := by
  fun_induction tokens source with
  | case1 source heof => rfl
  | case2 source hne ih => rw [List.length_cons, take, ih]

/-- The tokens of every source tile it, and a lexer that cuts the source anew for each
of them finds them all. -/
theorem tokenize_tiling (source : String) (file : Option String) :
    Tiling source (file.getD Scanner.defaultFile) (tokenize source file) ∧
    (Lexer.ofSource source file).take? (tokenize source file).length =
      some (tokenize source file) := by
  constructor
  · exact (tiles_tokens (Scanner.ofSource source file)).tiling
  · rw [(follows_ofSource source file).take?_eq]
    exact congrArg some (TokenSource.take_length_tokens _)

end BraceLang
