import BraceLang.Proofs.Parser.Comparison
import BraceLang.Proofs.Parser.Turns

/-!
# Whole readings compared

What a comparison says of the entry points (`Comparison.descent_parallel`) is
carried over to the reader (`reader_parallel`), to recovery (`synchronize_skip`)
and to all turns of two sources that agree throughout (`items_parallel`).

Two sources of the same tokens agree throughout (`agree_of_rest_eq`), so the
parser cannot tell them apart (`items_eq_of_rest_eq`).
-/

namespace BraceLang

variable {σ τ : Type} [TokenSource σ] [TokenSource τ]

/-- An item without what is left aside. -/
def Item.erase (E : Erasure) : Item → Item
  | .ok statement => .ok (statement.erase E)
  | .error diagnostic => .error (diagnostic.erase E)

namespace Comparison

variable {p : Comparison σ τ} {place : Nat}

/-! ## The reader -/

/-- The fuel that both readings take at most. -/
def fuel (p : Comparison σ τ) (place : Nat) : Nat :=
  max (p.start.skip place).fuel (p.start'.skip place).fuel

theorem fuel_le (p : Comparison σ τ) (place : Nat) : (p.start.skip place).fuel ≤ p.fuel place :=
  Nat.le_max_left _ _

theorem fuel_le' (p : Comparison σ τ) (place : Nat) : (p.start'.skip place).fuel ≤ p.fuel place :=
  Nat.le_max_right _ _

/-- With no bound on the fuel, the entry points mirror each other too. -/
theorem reader_parallel (hg : p.grammar.StopsAtEnd) (hg' : p.grammar'.StopsAtEnd) :
    p.Parallel (reader p.grammar) (reader p.grammar') := by
  have hsame : ∀ place, (reader p.grammar).SameAt (descent p.grammar (p.fuel place))
      (p.start.skip place) := fun place => reader_sameAt_descent hg (p.fuel_le place)
  have hsame' : ∀ place, (reader p.grammar').SameAt (descent p.grammar' (p.fuel place))
      (p.start'.skip place) := fun place => reader_sameAt_descent hg' (p.fuel_le' place)
  constructor
  · intro floor place seen hseen
    rw [(hsame place).expr, (hsame' place).expr]
    exact (p.descent_parallel _).expr floor place seen hseen
  · intro floor left left' place seen hleft hseen
    rw [(hsame place).chain, (hsame' place).chain]
    exact (p.descent_parallel _).chain floor left left' place seen hleft hseen
  · intro place seen hseen
    rw [(hsame place).stmt, (hsame' place).stmt]
    exact (p.descent_parallel _).stmt place seen hseen
  · intro place seen hseen
    rw [(hsame place).stmts, (hsame' place).stmts]
    exact (p.descent_parallel _).stmts place seen hseen
  · intro place seen hseen
    rw [(hsame place).parameters, (hsame' place).parameters]
    exact (p.descent_parallel _).parameters place seen hseen
  · intro place seen hseen
    rw [(hsame place).arguments, (hsame' place).arguments]
    exact (p.descent_parallel _).arguments place seen hseen

/-! ## Recovery -/

theorem depth_skip (hdepth : p.start.depth = p.start'.depth) (hagree : p.Agree (place + 1)) :
    (p.start.skip place).depth = (p.start'.skip place).depth := by
  induction place with
  | zero => exact hdepth
  | succ place ih =>
    have hkind := Erasure.kind_eq (hagree (place + 1) (Nat.lt_succ_self _)).1
    have hbefore := ih (hagree.mono (Nat.le_succ _))
    show depthAfter (p.start.skip place).depth (p.start.skip (place + 1)).current.kind =
      depthAfter (p.start'.skip place).depth (p.start'.skip (place + 1)).current.kind
    rw [hkind, hbefore]

/-- Recovery stops at the same place, if the cursors agree up to there.  One token
more is in view where it stops at a closing brace. -/
theorem synchronize_skip (p : Comparison σ τ) (base place : Nat)
    (hdepth : p.start.depth = p.start'.depth) :
    ∃ stop count, (p.start.skip place).synchronize base = p.start.skip stop ∧
      place ≤ stop ∧ place + 1 ≤ count ∧ count ≤ stop + 2 ∧
      ((p.start.skip stop).current.kind = .semicolon → count ≤ stop + 1) ∧
      (p.Agree count → (p.start'.skip place).synchronize base = p.start'.skip stop) := by
  generalize hcursor : p.start.skip place = cursor
  fun_induction Cursor.synchronize base cursor generalizing place with
  | case1 cursor heof =>
    subst hcursor
    refine ⟨place, place + 1, rfl, Nat.le_refl _, Nat.le_refl _, by omega, fun _ => Nat.le_refl _,
      fun hagree => Cursor.synchronize_of_eof ?_⟩
    rw [← Erasure.kind_eq (hagree place (Nat.lt_succ_self place)).1]
    exact heof
  | case2 cursor _ hsemicolon =>
    subst hcursor
    refine ⟨place, place + 1, rfl, Nat.le_refl _, Nat.le_refl _, by omega, fun _ => Nat.le_refl _,
      fun hagree => Cursor.synchronize_of_semicolon ?_ ?_⟩
    · rw [← Erasure.kind_eq (hagree place (Nat.lt_succ_self place)).1]
      exact hsemicolon.1
    · rw [← depth_skip hdepth hagree]
      exact hsemicolon.2
  | case3 cursor _ _ hclose =>
    subst hcursor
    have hstop : p.Agree (place + 2) →
        (p.start'.skip place).synchronize base = (p.start'.skip place).skipOptional .semicolon := by
      intro hagree
      refine Cursor.synchronize_of_closeCurly ?_ ?_
      · rw [← Erasure.kind_eq (hagree place (by omega)).1]
        exact hclose.1
      · rw [← depth_skip hdepth (hagree.mono (Nat.le_succ _))]
        exact hclose.2
    have hpeekEq : p.Agree (place + 2) →
        (p.start.skip place).peek.kind = (p.start'.skip place).peek.kind := fun hagree =>
      Erasure.kind_eq (hagree (place + 1) (Nat.lt_succ_self _)).1
    by_cases hpeek : (p.start.skip place).peek.kind = .semicolon
    · rw [Cursor.skipOptional, if_pos hpeek]
      refine ⟨place + 1, place + 2, rfl, by omega, by omega, by omega, fun _ => Nat.le_refl _,
        fun hagree => ?_⟩
      rw [hstop hagree, Cursor.skipOptional, if_pos ((hpeekEq hagree).symm.trans hpeek)]
      rfl
    · rw [Cursor.skipOptional, if_neg hpeek]
      refine ⟨place, place + 2, rfl, by omega, by omega, by omega, fun hkind => ?_,
        fun hagree => ?_⟩
      · rw [hclose.1] at hkind
        cases hkind
      · rw [hstop hagree, Cursor.skipOptional, if_neg (by rw [← hpeekEq hagree]; exact hpeek)]
  | case4 cursor hne hsemicolon hclose ih =>
    subst hcursor
    obtain ⟨stop, count, hstop, hplace, hless, hcount, hkind, hagree⟩ := ih (place + 1) rfl
    refine ⟨stop, count, hstop, by omega, by omega, hcount, hkind, fun hall => ?_⟩
    have hhere : p.Agree (place + 1) := hall.mono (by omega)
    have hkindEq := Erasure.kind_eq (hhere place (Nat.lt_succ_self place)).1
    have hdepthEq := depth_skip hdepth hhere
    rw [Cursor.synchronize_advance,
      show (p.start'.skip place).advance = p.start'.skip (place + 1) from rfl, hagree hall]
    · rw [← hkindEq]
      exact hne
    · rw [← hkindEq, ← hdepthEq]
      exact fun h => Nat.not_le.1 fun hle => hsemicolon ⟨h, hle⟩
    · rw [← hkindEq, ← hdepthEq]
      exact fun h => Nat.not_le.1 fun hle => hclose ⟨h, hle⟩

/-! ## Turns -/

theorem outerDepth_skip (hdepth : p.start.depth = p.start'.depth) (hagree : p.Agree (place + 1)) :
    (p.start.skip place).outerDepth = (p.start'.skip place).outerDepth := by
  unfold Cursor.outerDepth
  rw [depth_skip hdepth hagree, Erasure.kind_eq (hagree place (Nat.lt_succ_self place)).1]

/-- Where the cursors agree throughout, the turns give the same. -/
theorem items_parallel (hg : p.grammar.StopsAtEnd) (hg' : p.grammar'.StopsAtEnd)
    (hdepth : p.start.depth = p.start'.depth) (hagree : ∀ count, p.Agree count) (place : Nat) :
    (items p.grammar (p.start.skip place)).1.map (Item.erase p.erasure) =
      (items p.grammar' (p.start'.skip place)).1.map (Item.erase p.erasure) := by
  have hkind := Erasure.kind_eq (hagree (place + 1) place (Nat.lt_succ_self place)).1
  by_cases heof : (p.start.skip place).current.kind = .eof
  · rw [items_of_eof heof, items_of_eof (hkind.symm.trans heof)]
  · have hne' : (p.start'.skip place).current.kind ≠ .eof := by
      rw [← hkind]
      exact heof
    have hmirrors := (reader_parallel hg hg').stmt place 0 (Nat.zero_le _)
    rcases stmt_ok_or_fail hg (p.start.skip place) with
      ⟨statement, moved, hstmt⟩ | ⟨diagnostic, moved, hstmt⟩
    · have hlt := remaining_advance_lt_of_ok hg heof hstmt
      rw [hstmt] at hmirrors
      obtain ⟨next, count, rfl, _, _, hsame⟩ := hmirrors
      obtain ⟨statement', hstmt', herase⟩ := hsame (hagree count)
      rw [items_of_ok hg heof hstmt, items_of_ok hg' hne' hstmt', List.map_cons, List.map_cons]
      have hothers := items_parallel hg hg' hdepth hagree (next + 1)
      exact congr (congrArg List.cons (congrArg Except.ok herase)) hothers
    · have hlt := remaining_advance_lt_of_fail hg (p.start.skip place).outerDepth heof hstmt
      rw [hstmt] at hmirrors
      obtain ⟨broken, count, rfl, _, _, hsame⟩ := hmirrors
      obtain ⟨diagnostic', hstmt', herase⟩ := hsame (hagree count)
      obtain ⟨stop, count', hstop, _, _, _, _, hstop'⟩ :=
        p.synchronize_skip (p.start.skip place).outerDepth broken hdepth
      rw [items_of_fail hg heof hstmt, items_of_fail hg' hne' hstmt', List.map_cons, List.map_cons,
        ← outerDepth_skip hdepth (hagree _), hstop, hstop' (hagree count')]
      have hless : (p.start.skip (stop + 1)).remaining < (p.start.skip place).remaining := by
        rw [hstop] at hlt
        exact hlt
      have hothers := items_parallel hg hg' hdepth hagree (stop + 1)
      exact congr (congrArg List.cons (congrArg Except.error herase)) hothers
termination_by (p.start.skip place).remaining

end Comparison

/-! ## Sources of the same tokens -/

/-- Cursors with the same tokens left agree throughout. -/
theorem agree_of_rest_eq {start : Cursor σ} {start' : Cursor τ} (E : Erasure) (grammar : Grammar)
    (hrest : start.rest = start'.rest) (hlast : start.last = start'.last) (count : Nat) :
    Comparison.Agree ⟨E, grammar, grammar, start, start'⟩ count := by
  intro i _
  have hcurrent : (start.skip i).current = (start'.skip i).current := by
    rw [Cursor.current_skip, Cursor.current_skip, hrest, hlast]
  exact ⟨congrArg E.view hcurrent, ⟨rfl, rfl, rfl⟩⟩

/-- Cursors with the same tokens in front of them see the same tokens there. -/
theorem current_skip_eq_of_lt {start : Cursor σ} {start' : Cursor τ} {ts us vs : List Token}
    {count : Nat} (hrest : start.rest = ts ++ us) (hrest' : start'.rest = ts ++ vs)
    (hlt : count < ts.length) : (start.skip count).current = (start'.skip count).current := by
  have hle := Nat.le_of_lt hlt
  rw [Cursor.current_skip, Cursor.current_skip, hrest, hrest', List.drop_append_of_le_length hle,
    List.drop_append_of_le_length hle, List.drop_eq_getElem_cons hlt]
  rfl

theorem agree_of_rest_append {start : Cursor σ} {start' : Cursor τ} {ts us vs : List Token}
    (E : Erasure) (grammar : Grammar) (hrest : start.rest = ts ++ us)
    (hrest' : start'.rest = ts ++ vs) :
    Comparison.Agree ⟨E, grammar, grammar, start, start'⟩ ts.length := by
  intro i hi
  have hcurrent := current_skip_eq_of_lt hrest hrest' hi
  exact ⟨congrArg E.view hcurrent, ⟨rfl, rfl, rfl⟩⟩

theorem Item.erase_none (item : Item) : Item.erase .none item = item := by
  cases item with
  | ok statement => exact congrArg Except.ok statement.erase_none
  | error diagnostic => exact congrArg Except.error diagnostic.erase_none

theorem Item.map_erase_none (items : List Item) : items.map (Item.erase .none) = items :=
  (List.map_congr_left fun item _ => item.erase_none).trans (List.map_id items)

/-- The turns depend on nothing but the tokens that are left, and on how many braces
are open. -/
theorem items_eq_of_rest_eq {grammar : Grammar} (hg : grammar.StopsAtEnd) {start : Cursor σ}
    {start' : Cursor τ} (hdepth : start.depth = start'.depth) (hrest : start.rest = start'.rest)
    (hlast : start.last = start'.last) : (items grammar start).1 = (items grammar start').1 := by
  have h := Comparison.items_parallel (p := ⟨.none, grammar, grammar, start, start'⟩) hg hg hdepth
    (agree_of_rest_eq .none grammar hrest hlast) 0
  exact (Item.map_erase_none _).symm.trans (h.trans (Item.map_erase_none _))

end BraceLang
