import BraceLang.Proofs.Parser.Fuel

/-!
# The turns of a program

`items` allows no more turns than there are tokens left.  This bound is never
met: every turn ends (`Descent.Answers`) and takes a token
(`remaining_advance_lt_of_ok`, `remaining_advance_lt_of_fail`).  So `items`
unfolds turn by turn, as `items_of_eof`, `items_of_ok` and `items_of_fail` say,
and what holds of all turns follows by induction on what is left of the source.
-/

namespace BraceLang

variable {σ : Type} [TokenSource σ] {grammar : Grammar} {cursor moved : Cursor σ}

/-! ## Recovery -/

theorem Cursor.synchronize_of_eof {base : Nat} (h : cursor.current.kind = .eof) :
    cursor.synchronize base = cursor := by
  rw [Cursor.synchronize, dif_pos h]

theorem Cursor.synchronize_of_semicolon {base : Nat} (h : cursor.current.kind = .semicolon)
    (hdepth : cursor.depth ≤ base) : cursor.synchronize base = cursor := by
  rw [Cursor.synchronize, dif_neg (by rw [h]; simp), if_pos ⟨h, hdepth⟩]

theorem Cursor.synchronize_of_closeCurly {base : Nat} (h : cursor.current.kind = .closeCurly)
    (hdepth : cursor.depth ≤ base) :
    cursor.synchronize base = cursor.skipOptional .semicolon := by
  rw [Cursor.synchronize, dif_neg (by rw [h]; simp), if_neg (by simp [h]), if_pos ⟨h, hdepth⟩]

/-- Recovery goes on over any token that does not end the statement. -/
theorem Cursor.synchronize_advance {base : Nat} (hne : cursor.current.kind ≠ .eof)
    (hsemicolon : cursor.current.kind = .semicolon → base < cursor.depth)
    (hclose : cursor.current.kind = .closeCurly → base < cursor.depth) :
    cursor.synchronize base = cursor.advance.synchronize base := by
  rw [Cursor.synchronize, dif_neg hne, if_neg fun h => Nat.not_lt.2 h.2 (hsemicolon h.1),
    if_neg fun h => Nat.not_lt.2 h.2 (hclose h.1)]

theorem Cursor.remaining_synchronize_le (base : Nat) (cursor : Cursor σ) :
    (cursor.synchronize base).remaining ≤ cursor.remaining := by
  fun_induction Cursor.synchronize base cursor with
  | case1 => exact Nat.le_refl _
  | case2 => exact Nat.le_refl _
  | case3 => exact Cursor.remaining_skipOptional_le _ _
  | case4 cursor hne _ _ ih =>
    have := Cursor.remaining_advance_lt hne
    omega

/-! ## Turns take tokens -/

/-- Reading a statement ends. -/
theorem stmt_ok_or_fail (hg : grammar.StopsAtEnd) (cursor : Cursor σ) :
    (∃ statement moved, (reader grammar).stmt cursor = .ok statement moved) ∨
      ∃ diagnostic moved, (reader grammar).stmt cursor = .fail diagnostic moved := by
  cases h : (reader grammar).stmt cursor with
  | ok statement moved => exact .inl ⟨statement, moved, rfl⟩
  | fail diagnostic moved => exact .inr ⟨diagnostic, moved, rfl⟩
  | exhausted => exact absurd h ((reader_answers hg).stmt cursor).ne_exhausted

theorem remaining_advance_lt_of_ok (hg : grammar.StopsAtEnd) {statement : Stmt}
    (hne : cursor.current.kind ≠ .eof)
    (h : (reader grammar).stmt cursor = .ok statement moved) :
    moved.advance.remaining < cursor.remaining := by
  have hanswer := (reader_answers hg).stmt cursor
  rw [h] at hanswer
  have hpos := Cursor.remaining_pos hne
  have hmoved : moved.remaining ≤ cursor.remaining := hanswer
  have hadvance := moved.remaining_advance_le
  omega

theorem remaining_advance_lt_of_fail (hg : grammar.StopsAtEnd) {diagnostic : Diagnostic}
    (base : Nat) (hne : cursor.current.kind ≠ .eof)
    (h : (reader grammar).stmt cursor = .fail diagnostic moved) :
    (moved.synchronize base).advance.remaining < cursor.remaining := by
  have hanswer := (reader_answers hg).stmt cursor
  rw [h] at hanswer
  have hpos := Cursor.remaining_pos hne
  have hmoved : moved.remaining ≤ cursor.remaining := hanswer
  have hsynchronize := moved.remaining_synchronize_le base
  have hadvance := (moved.synchronize base).remaining_advance_le
  omega

/-! ## Turn by turn -/

theorem turn?_of_ok {statement : Stmt}
    (h : (reader grammar).stmt cursor = .ok statement moved) :
    turn? grammar cursor = some (.ok statement, moved.advance) := by
  have hstmt : (descent grammar cursor.fuel).stmt cursor = .ok statement moved := h
  rw [turn?, hstmt]

theorem turn?_of_fail {diagnostic : Diagnostic}
    (h : (reader grammar).stmt cursor = .fail diagnostic moved) :
    turn? grammar cursor =
      some (.error diagnostic, (moved.synchronize cursor.outerDepth).advance) := by
  have hstmt : (descent grammar cursor.fuel).stmt cursor = .fail diagnostic moved := h
  rw [turn?, hstmt]

/-- A turn takes at least one token. -/
theorem remaining_lt_of_turn? (hg : grammar.StopsAtEnd) {item : Item}
    (hne : cursor.current.kind ≠ .eof) (h : turn? grammar cursor = some (item, moved)) :
    moved.remaining < cursor.remaining := by
  rcases stmt_ok_or_fail hg cursor with ⟨statement, last, hstmt⟩ | ⟨diagnostic, last, hstmt⟩
  · rw [turn?_of_ok hstmt] at h
    cases h
    exact remaining_advance_lt_of_ok hg hne hstmt
  · rw [turn?_of_fail hstmt] at h
    cases h
    exact remaining_advance_lt_of_fail hg _ hne hstmt

theorem itemsWithin_of_eof (count : Nat) (h : cursor.current.kind = .eof) :
    itemsWithin grammar count cursor = ([], cursor) := by
  cases count with
  | zero => rfl
  | succ count => rw [itemsWithin, if_pos h]

/-- A higher bound on the turns changes nothing. -/
theorem itemsWithin_eq_items (hg : grammar.StopsAtEnd) {count : Nat}
    (hcount : cursor.remaining ≤ count) :
    itemsWithin grammar count cursor = items grammar cursor := by
  -- Both bounds are above what is left, and the first turn lowers what is left.
  have hstable : ∀ (count count' : Nat) (cursor : Cursor σ), cursor.remaining ≤ count →
      cursor.remaining ≤ count' →
      itemsWithin grammar count cursor = itemsWithin grammar count' cursor := by
    intro count
    induction count with
    | zero =>
      intro count' cursor hcount _
      have heof : cursor.current.kind = .eof := Decidable.byContradiction fun hne => by
        have := Cursor.remaining_pos hne
        omega
      rw [itemsWithin_of_eof 0 heof, itemsWithin_of_eof count' heof]
    | succ count ih =>
      intro count' cursor hcount hcount'
      by_cases heof : cursor.current.kind = .eof
      · rw [itemsWithin_of_eof _ heof, itemsWithin_of_eof count' heof]
      · have hpos := Cursor.remaining_pos heof
        obtain ⟨less, rfl⟩ : ∃ less, count' = less + 1 := ⟨count' - 1, by omega⟩
        rw [itemsWithin, itemsWithin, if_neg heof, if_neg heof]
        cases hturn : turn? grammar cursor with
        | none => rfl
        | some result =>
          obtain ⟨item, moved⟩ := result
          have hlt := remaining_lt_of_turn? hg heof hturn
          simp only
          rw [ih less moved (by omega) (by omega)]
  exact hstable count cursor.remaining cursor hcount (Nat.le_refl _)

theorem items_of_eof (h : cursor.current.kind = .eof) :
    items grammar cursor = ([], cursor) :=
  itemsWithin_of_eof _ h

theorem items_of_turn? (hg : grammar.StopsAtEnd) {item : Item}
    (hne : cursor.current.kind ≠ .eof) (h : turn? grammar cursor = some (item, moved)) :
    items grammar cursor = (item :: (items grammar moved).1, (items grammar moved).2) := by
  have hlt := remaining_lt_of_turn? hg hne h
  obtain ⟨less, hless⟩ : ∃ less, cursor.remaining = less + 1 :=
    ⟨cursor.remaining - 1, by omega⟩
  rw [items, hless, itemsWithin, if_neg hne, h]
  simp only
  rw [itemsWithin_eq_items hg (by omega)]

theorem items_of_ok (hg : grammar.StopsAtEnd) {statement : Stmt}
    (hne : cursor.current.kind ≠ .eof)
    (h : (reader grammar).stmt cursor = .ok statement moved) :
    items grammar cursor =
      (.ok statement :: (items grammar moved.advance).1, (items grammar moved.advance).2) :=
  items_of_turn? hg hne (turn?_of_ok h)

theorem items_of_fail (hg : grammar.StopsAtEnd) {diagnostic : Diagnostic}
    (hne : cursor.current.kind ≠ .eof)
    (h : (reader grammar).stmt cursor = .fail diagnostic moved) :
    items grammar cursor =
      (.error diagnostic ::
          (items grammar (moved.synchronize cursor.outerDepth).advance).1,
        (items grammar (moved.synchronize cursor.outerDepth).advance).2) :=
  items_of_turn? hg hne (turn?_of_fail h)

end BraceLang
