import BraceLang.Proofs.Parser.Path
import BraceLang.Proofs.Scan.Spelling
import BraceLang.Scanner

/-!
# Scanning a whole text

`Scans cs spellings` says that lexemes follow one another in the text `cs` without
a gap, and that the tokens they make have the `spellings`.  A text that is put
together from the back, piece by piece, scans as its pieces do (`Scans.write`,
`Scans.blank`).

The tokens of a scanner are those of its text (`Scans.tokens_eq`), and all of them
but the illegal ones and the end are spelled as tokens of their kind
(`spelled_of_mem_tokens`).
-/

namespace BraceLang

open Text

variable {cs rest : List Char} {spellings : List Spelling} {scanner : Scanner}

/-- The lexemes of the text make tokens of these spellings. -/
inductive Scans : List Char → List Spelling → Prop where
  | nil : Scans [] []
  | skip {cs : List Char} {lexeme : Lexeme} {spellings : List Spelling}
      (h : Lexeme.first? cs = some lexeme) (hmade : lexeme.token? = none)
      (hmore : Scans lexeme.rest spellings) : Scans cs spellings
  | take {cs : List Char} {lexeme : Lexeme} {spelling : Spelling} {spellings : List Spelling}
      (h : Lexeme.first? cs = some lexeme) (hmade : lexeme.token? = some spelling)
      (hmore : Scans lexeme.rest spellings) : Scans cs (spelling :: spellings)

/-! ## Pieces of a text -/

/-- A spelling that is written in front of a text. -/
theorem Scans.write {spelling : Spelling} (h : Spelled spelling.1 spelling.2)
    (hshown : spelling.Shown) (hrest : Parts spelling.1 rest) (hmore : Scans rest spellings) :
    Scans (spelling.write.toList ++ rest) (spelling :: spellings) := by
  obtain ⟨lexeme, hfirst, hmade, rfl⟩ := Lexeme.first?_write h hshown hrest
  exact .take hfirst hmade hmore

theorem Lexeme.first?_blank {c : Char} (h : isBlank c = true) (cs : List Char) :
    first? (c :: cs) = some ⟨.blank, c :: cs.takeWhile isBlank, cs.dropWhile isBlank⟩ := by
  refine first?_of_split? [] rfl (fun _ hother => by cases hother) ?_
  rw [LexemeClass.split?, LexemeClass.splitRun?, if_pos h]

/-- A blank that is written in front of a text.  Other blanks may follow it, which
belong to the same lexeme. -/
theorem Scans.blank (h : Scans cs spellings) : Scans (' ' :: cs) spellings := by
  refine .skip (Lexeme.first?_blank rfl cs) rfl ?_
  show Scans (cs.dropWhile isBlank) spellings
  cases cs with
  | nil => exact h
  | cons c cs =>
    by_cases hblank : isBlank c = true
    · have hfirst := Lexeme.first?_blank hblank cs
      rw [List.dropWhile_cons_of_pos hblank]
      cases h with
      | skip hlexeme _ hmore =>
        rw [hfirst] at hlexeme
        cases hlexeme
        exact hmore
      | take hlexeme hmade _ =>
        rw [hfirst] at hlexeme
        cases hlexeme
        cases hmade
    · rwa [List.dropWhile_cons_of_neg hblank]

/-! ## Scanners -/

namespace Scanner

theorem next_of_nil (h : scanner.rest = []) :
    scanner.next = (.eof scanner.position, scanner) := by
  rw [next.eq_def]
  split
  · rfl
  · rename_i c cs hrest
    rw [h] at hrest
    cases hrest

/-- The next token comes from the first lexeme. -/
theorem next_of_first? {lexeme : Lexeme} (h : Lexeme.first? scanner.rest = some lexeme) :
    scanner.next =
      match lexeme.token? with
      | none => next (scanner.past lexeme.matched lexeme.rest)
      | some (kind, text) =>
        (⟨kind, text, scanner.spanOf lexeme.matched⟩,
          scanner.past lexeme.matched lexeme.rest) := by
  rw [next.eq_def]
  split
  · rename_i hrest
    rw [hrest] at h
    cases h
  · rename_i c cs hrest
    rw [hrest] at h
    split
    · rename_i hnone
      rw [h] at hnone
      cases hnone
    · rename_i first hfirst
      rw [h] at hfirst
      cases hfirst
      rfl

/-- The next token, unless it is the end or illegal, is spelled as a token of its
kind. -/
theorem spelled_next (scanner : Scanner) (heof : scanner.next.1.kind ≠ .eof)
    (hillegal : scanner.next.1.kind ≠ .illegal) :
    Spelled scanner.next.1.kind scanner.next.1.text := by
  fun_induction next scanner with
  | case1 => exact absurd rfl heof
  | case2 => exact absurd rfl hillegal
  | case3 _ _ _ _ _ _ _ ih => exact ih heof hillegal
  | case4 _ _ _ _ _ hfirst _ _ hmade => exact Lexeme.spelled_of_first? hfirst hmade

theorem spelled_of_mem_tokens {token : Token} (h : token ∈ TokenSource.tokens scanner)
    (heof : token.kind ≠ .eof) (hillegal : token.kind ≠ .illegal) :
    Spelled token.kind token.text := by
  fun_induction TokenSource.tokens scanner with
  | case1 scanner hend =>
    rw [List.mem_singleton] at h
    subst h
    exact absurd hend heof
  | case2 scanner hne ih =>
    rcases List.mem_cons.1 h with rfl | htail
    · exact scanner.spelled_next heof hillegal
    · exact ih htail

end Scanner

/-- The tokens of a scanner have the spellings of its text. -/
theorem Scans.tokens_eq (h : Scans cs spellings) (hrest : scanner.rest = cs) :
    (TokenSource.tokens scanner).map Token.spelling = spellings ++ [(.eof, "EOF")] := by
  induction h generalizing scanner with
  | nil =>
    have hnext := Scanner.next_of_nil hrest
    have heof : (TokenSource.next scanner).1.kind = .eof := congrArg (fun step => step.1.kind) hnext
    rw [Cursor.tokens_of_eof heof, show TokenSource.next scanner = scanner.next from rfl, hnext]
    rfl
  | @skip cs lexeme spellings hfirst hmade hmore ih =>
    subst hrest
    have hnext := Scanner.next_of_first? hfirst
    rw [hmade] at hnext
    have htokens : TokenSource.tokens scanner =
        TokenSource.tokens (scanner.past lexeme.matched lexeme.rest) := Cursor.tokens_congr hnext
    rw [htokens]
    exact ih rfl
  | @take cs lexeme spelling spellings hfirst hmade hmore ih =>
    subst hrest
    obtain ⟨kind, text⟩ := spelling
    have hnext := Scanner.next_of_first? hfirst
    rw [hmade] at hnext
    have hne : (TokenSource.next scanner).1.kind ≠ .eof := by
      rw [show TokenSource.next scanner = scanner.next from rfl, hnext]
      exact Lexeme.kind_ne_eof_of_first? hfirst hmade
    rw [Cursor.tokens_of_ne_eof hne, show TokenSource.next scanner = scanner.next from rfl, hnext]
    exact congrArg ((kind, text) :: ·) (ih rfl)

end BraceLang
