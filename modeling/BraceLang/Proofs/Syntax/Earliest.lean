import BraceLang.Proofs.Recovery.Isolation
import BraceLang.Proofs.Syntax.Viable

/-!
# Diagnostics come as early as they can

The first diagnostic of a list of tokens blames the first token with which they are no
longer the beginning of a program (`parseTokens_viable_prefix`).

* What stands in front of the blamed token can be completed to a program: turn by turn
  this is `viable_of_items`.
* Behind the blamed token nothing has been looked at, so that the diagnostic is the same
  whatever follows there (`exists_stop`).
-/

namespace BraceLang.Syntax

open Grammar

variable {σ τ : Type} [TokenSource σ] [TokenSource τ] {diagnostic : Diagnostic}

/-! ## Tokens of a program -/

theorem ne_eof_of_mem_operators {level : Nat} {kind : TokenKind} (h : kind ∈ operators level) :
    kind ≠ .eof := by
  obtain ⟨_, power, htrailing, _⟩ := trailing_of_mem_operators h
  exact (Ruled.trailing htrailing).ne.1

/-- No end token is derived from any symbol. -/
theorem Derives.ne_eof {symbol : Symbol} {ts : List Token} {tree : symbol.Tree}
    (h : Derives symbol ts tree) : ∀ token ∈ ts, token.kind ≠ .eof := by
  induction h with
  | binary hkind _ _ ihleft ihright =>
    simp only [List.forall_mem_append, List.forall_mem_cons]
    exact ⟨ihleft, ne_eof_of_mem_operators hkind, ihright⟩
  | unary hkind _ ih =>
    refine List.forall_mem_cons.2 ⟨?_, ih⟩
    rcases hkind with hkind | hkind <;> simp [hkind]
  | bind hword hname hsign _ hend ih =>
    simp only [List.forall_mem_append, List.forall_mem_cons]
    exact ⟨by simp [hword], by simp [hname], by simp [hsign], ih, hend.optional.ne_eof⟩
  | ret hword _ hend ih =>
    simp only [List.forall_mem_append, List.forall_mem_cons]
    exact ⟨by simp [hword], ih, hend.optional.ne_eof⟩
  | bareRet hword hend => exact List.forall_mem_cons.2 ⟨by simp [hword], hend.optional.ne_eof⟩
  | expr _ hend ih =>
    obtain ⟨hfirst, hothers⟩ := List.forall_mem_cons.1 ih
    simp only [List.forall_mem_append, List.forall_mem_cons]
    exact ⟨hfirst, hothers, hend.optional.ne_eof⟩
  | _ => simp_all [or_imp]

/-! ## In front of the blamed token -/

/-- What stands in front of the token that the first diagnostic blames can be completed
to statements. -/
theorem viable_of_items (cursor : Cursor σ)
    (h : firstOf (items standard cursor).1 = some diagnostic) :
    ∃ moved, Viable cursor (.stmts .eof) diagnostic moved := by
  by_cases heof : cursor.current.kind = .eof
  · rw [items_of_eof heof] at h
    cases h
  · rcases stmt_ok_or_fail standard_stopsAtEnd cursor with
      ⟨statement, moved, hstmt⟩ | ⟨first, moved, hstmt⟩
    · have hlt := remaining_advance_lt_of_ok standard_stopsAtEnd heof hstmt
      rw [items_of_ok standard_stopsAtEnd heof hstmt] at h
      obtain ⟨last, hviable⟩ := viable_of_items moved.advance h
      exact ⟨last, .cons (.inr rfl) (finds_of_stmt_ok hstmt) hviable⟩
    · rw [items_of_fail standard_stopsAtEnd heof hstmt] at h
      cases h
      have hviable := viable_of_stmt_fail .eof hstmt
      exact ⟨moved, hviable.within (.here cursor) fun us hus => hus.stmts⟩
termination_by cursor.remaining

/-! ## Behind the blamed token -/

/-- Another reading that agrees up to the blamed token gives the same diagnostic
first. -/
theorem exists_stop (start : Cursor σ) (start' : Cursor τ) (place : Nat)
    (h : firstOf (items standard (start.skip place)).1 = some diagnostic) :
    ∃ stop, place ≤ stop ∧ diagnostic.position = (start.skip stop).current.start ∧
      (Comparison.Agree ⟨.none, standard, standard, start, start'⟩ (stop + 1) →
        firstOf (items standard (start'.skip place)).1 = some diagnostic) := by
  let p : Comparison σ τ := ⟨.none, standard, standard, start, start'⟩
  by_cases heof : (start.skip place).current.kind = .eof
  · rw [items_of_eof heof] at h
    cases h
  · have hne : p.Agree (place + 1) → (start'.skip place).current.kind ≠ .eof := fun hagree => by
      rw [← Erasure.kind_eq (hagree place (Nat.lt_succ_self place)).1]
      exact heof
    have hmirrors := (p.reader_parallel standard_stopsAtEnd standard_stopsAtEnd).stmt place
      (place + 1) (Nat.le_refl _)
    rcases stmt_ok_or_fail standard_stopsAtEnd (start.skip place) with
      ⟨statement, moved, hstmt⟩ | ⟨first, moved, hstmt⟩
    · have hlt := remaining_advance_lt_of_ok standard_stopsAtEnd heof hstmt
      rw [items_of_ok standard_stopsAtEnd heof hstmt] at h
      rw [show (reader p.grammar).stmt (p.start.skip place) = _ from hstmt] at hmirrors
      obtain ⟨next, count, rfl, hseen, hcount, hsame⟩ := hmirrors
      obtain ⟨stop, hstop, hposition, hfirst⟩ := exists_stop start start' (next + 1) h
      refine ⟨stop, by omega, hposition, fun hagree => ?_⟩
      obtain ⟨statement', hstmt', _⟩ := hsame (hagree.mono (by omega))
      have hne' := hne (hagree.mono (by omega))
      rw [items_of_ok standard_stopsAtEnd hne' hstmt']
      exact hfirst hagree
    · rw [items_of_fail standard_stopsAtEnd heof hstmt] at h
      cases h
      rw [show (reader p.grammar).stmt (p.start.skip place) = _ from hstmt] at hmirrors
      obtain ⟨broken, count, rfl, hseen, hcount, hsame⟩ := hmirrors
      have hposition := (viable_of_stmt_fail .eof hstmt).position_eq
      rw [Diagnostic.blamed, ← Cursor.skip_add] at hposition
      have hreach := diagnostic.reach_pos
      refine ⟨_, by omega, hposition, fun hagree => ?_⟩
      obtain ⟨diagnostic', hstmt', herase⟩ := hsame (hagree.mono (by omega))
      have hne' := hne (hagree.mono (by omega))
      rw [items_of_fail standard_stopsAtEnd hne' hstmt']
      exact congrArg some (diagnostic'.erase_none.symm.trans (herase.symm.trans
        diagnostic.erase_none))
termination_by (start.skip place).remaining

/-! ## Lists of tokens -/

/-- Tokens with different positions stand at different places. -/
theorem index_eq_of_start_eq {tokens : List Token} {i j : Nat} {token token' : Token}
    (hdistinct : (tokens.map Token.start).Nodup) (hi : tokens[i]? = some token)
    (hj : tokens[j]? = some token') (hstart : token.start = token'.start) : i = j := by
  have hlt : i < (tokens.map Token.start).length := by
    rw [List.length_map]
    exact (List.getElem?_eq_some_iff.1 hi).1
  apply (List.getElem?_inj hlt hdistinct).1
  rw [List.getElem?_map, List.getElem?_map, hi, hj]
  exact congrArg some hstart

/-- Where a cursor stands among the tokens that are left and the end token. -/
theorem getElem?_skip (start : Cursor σ) (count : Nat) :
    (start.rest ++ [start.last])[min count start.rest.length]? =
      some (start.skip count).current := by
  rw [Cursor.current_skip]
  by_cases hlt : count < start.rest.length
  · rw [Nat.min_eq_left (Nat.le_of_lt hlt), List.getElem?_append_left hlt,
      List.drop_eq_getElem_cons hlt, List.getElem?_eq_getElem hlt]
    rfl
  · have hle := Nat.le_of_not_lt hlt
    rw [Nat.min_eq_right hle, List.getElem?_append_right (Nat.le_refl _), Nat.sub_self,
      List.drop_eq_nil_of_le hle]
    rfl

/-- The first diagnostic comes as early as it can.  The tokens in front of the one that
it blames are the beginning of a program that is read without a diagnostic; and once
that token has been read, the diagnostic is the first one whatever follows. -/
theorem parseTokens_viable_prefix {tokens : List Token} {diagnostic : Diagnostic} {e : Nat}
    {blamed : Token} (h : ∀ token ∈ tokens, token.kind ≠ .eof)
    (hdistinct : ((tokens ++ [TokenBuffer.endOf tokens]).map Token.start).Nodup)
    (hfirst : (parseTokens tokens).diagnostics.entries.head? = some diagnostic)
    (hblamed : (tokens ++ [TokenBuffer.endOf tokens])[e]? = some blamed)
    (hposition : diagnostic.position = blamed.start) :
    (∃ more : List Token, (∀ token ∈ more, token.kind ≠ .eof) ∧
        (parseTokens (tokens.take e ++ more)).diagnostics = .empty) ∧
      (e < tokens.length → ∀ more : List Token,
        (parseTokens (tokens.take (e + 1) ++ more)).diagnostics.entries.head? =
          some diagnostic) := by
  have hrest := rest_start_of_ne_eof h
  have hlast := last_start_ofList tokens
  have hitems : firstOf (items standard (Cursor.start (TokenBuffer.ofList tokens))).1 =
      some diagnostic := hfirst
  generalize Cursor.start (TokenBuffer.ofList tokens) = start at hrest hlast hitems
  -- The blamed token is found again by its position.
  have hindex : ∀ {count}, diagnostic.position = (start.skip count).current.start →
      e = min count tokens.length := by
    intro count hat
    have hcount := getElem?_skip start count
    rw [hrest, hlast] at hcount
    exact index_eq_of_start_eq hdistinct hblamed hcount (hposition.symm.trans hat)
  constructor
  · obtain ⟨moved, hat, ts, hts, more, body, hbody⟩ := viable_of_items start hitems
    generalize diagnostic.blamed moved = place at hat hts
    have htokens : tokens = ts ++ place.rest := by
      rw [← hrest, hts.rest_eq fun _ => id]
    have htaken : tokens.take e = ts := by
      rw [hts.skip_eq] at hat
      rw [hindex hat, htokens, List.length_append, Nat.min_eq_left (Nat.le_add_right _ _),
        List.take_left]
    have hkinds := hbody.ne_eof
    refine ⟨more, fun token hmem => hkinds token (List.mem_append_right ts hmem), ?_⟩
    rw [htaken]
    exact (parseTokens_accepts_iff hkinds).1.2 ⟨body, hbody⟩
  · intro hlt more
    have htake : ∀ token ∈ tokens.take (e + 1), token.kind ≠ .eof := fun token hmem =>
      h token (List.mem_of_mem_take hmem)
    have hrest' := rest_start_ofList (tokens.take (e + 1) ++ more)
    rw [takeWhile_append htake] at hrest'
    obtain ⟨stop, _, hat, hsame⟩ := exists_stop start
      (Cursor.start (TokenBuffer.ofList (tokens.take (e + 1) ++ more))) 0 hitems
    have hstop := hindex hat
    have hagree := agree_of_rest_append .none standard
      (hrest.trans (List.take_append_drop (e + 1) tokens).symm) hrest'
    apply hsame
    apply hagree.mono
    rw [List.length_take]
    omega

/-- A binding without its sign is blamed on the token that stands there in place of
it. -/
theorem parseTokens_viable_prefix_binding :
    let span (start stop : Nat) : Span := ⟨⟨start, "binding"⟩, ⟨stop, "binding"⟩⟩
    let one : Token := ⟨.integer, "1", span 6 7⟩
    let tokens : List Token := [⟨.letWord, "let", span 0 3⟩, ⟨.identifier, "x", span 4 5⟩, one]
    let diagnostic : Diagnostic :=
      ⟨.expectedToken "let statement" .assignment .integer "1", ⟨6, "binding"⟩⟩
    (∀ token ∈ tokens, token.kind ≠ .eof) ∧
      ((tokens ++ [TokenBuffer.endOf tokens]).map Token.start).Nodup ∧
      (parseTokens tokens).diagnostics.entries.head? = some diagnostic ∧
      (tokens ++ [TokenBuffer.endOf tokens])[2]? = some one ∧
      diagnostic.position = one.start ∧
      (∃ more : List Token, (∀ token ∈ more, token.kind ≠ .eof) ∧
        (parseTokens (tokens.take 2 ++ more)).diagnostics = .empty) ∧
      (2 < tokens.length → ∀ more : List Token,
        (parseTokens (tokens.take (2 + 1) ++ more)).diagnostics.entries.head? =
          some diagnostic) := by
  intro span one tokens diagnostic
  have hkinds : ∀ token ∈ tokens, token.kind ≠ .eof := by decide
  have hdistinct : ((tokens ++ [TokenBuffer.endOf tokens]).map Token.start).Nodup := by decide
  have hfirst : (parseTokens tokens).diagnostics.entries.head? = some diagnostic := by rfl
  exact ⟨hkinds, hdistinct, hfirst, rfl, rfl,
    parseTokens_viable_prefix hkinds hdistinct hfirst rfl rfl⟩

end BraceLang.Syntax
