import BraceLang.Parser.Session
import BraceLang.Proofs.Parser.Turns
import BraceLang.Proofs.Recovery.Discipline

/-!
# The end of a broken statement

At any nesting, a statement that is given up is passed over up to the first *boundary* from
there on: a semicolon or a closing brace that is no deeper than the statement began, or the
end (`exists_boundary`).  A closing brace takes the semicolon behind it along.

The parser never gets out of the block that holds the statement.  It leaves a place inside of
the statement for one that is inside or a boundary (`Sheltered`), whether it reads or passes
over, so the brace that ends the block is the last one that can be reached
(`Recovers.stays`).

`Parser.parseStmt_disciplined` puts this together for one statement, read by the standard
grammar from any place in a source.
-/

namespace BraceLang.Recovery

open Grammar Descent

variable {σ : Type} [TokenSource σ] {base : Nat} {start cursor moved stop : Cursor σ}
  {ts : List Token}

/-! ## Boundaries -/

/-- A broken statement that began with `base` braces open ends here. -/
def Boundary (base : Nat) (cursor : Cursor σ) : Prop :=
  cursor.current.kind = .eof ∨
    (cursor.current.kind = .semicolon ∨ cursor.current.kind = .closeCurly) ∧ cursor.depth ≤ base

/-- Recovery goes on to the first boundary. -/
theorem exists_boundary (base : Nat) (cursor : Cursor σ) :
    ∃ ts stop, cursor.Passes (fun place => ¬ Boundary base place) ts stop ∧ Boundary base stop ∧
      cursor.synchronize base =
        if stop.current.kind = .closeCurly then stop.skipOptional .semicolon else stop := by
  fun_induction Cursor.synchronize base cursor with
  | case1 cursor heof =>
    exact ⟨[], cursor, .here cursor, .inl heof, by rw [if_neg (by rw [heof]; decide)]⟩
  | case2 cursor _ hsemicolon =>
    exact ⟨[], cursor, .here cursor, .inr ⟨.inl hsemicolon.1, hsemicolon.2⟩,
      by rw [if_neg (by rw [hsemicolon.1]; decide)]⟩
  | case3 cursor _ _ hclose =>
    exact ⟨[], cursor, .here cursor, .inr ⟨.inr hclose.1, hclose.2⟩, by rw [if_pos hclose.1]⟩
  | case4 cursor hne hsemicolon hclose ih =>
    obtain ⟨ts, stop, hpasses, hboundary, hstop⟩ := ih
    have hinner : ¬ Boundary base cursor := by
      rintro (heof | ⟨hkind | hkind, hdepth⟩)
      · exact hne heof
      · exact hsemicolon ⟨hkind, hdepth⟩
      · exact hclose ⟨hkind, hdepth⟩
    exact ⟨_, stop, .on hinner hpasses, hboundary, hstop⟩

/-- The place is in the block that holds the statement, or it is the end of this block. -/
def Sheltered (base : Nat) (cursor : Cursor σ) : Prop :=
  base ≤ cursor.depth ∨ Boundary base cursor

theorem inside_of_sheltered (h : Sheltered base cursor) (hinner : ¬ Boundary base cursor) :
    Inside base cursor := by
  refine ⟨fun heof => hinner (.inl heof), h.resolve_right hinner, fun hkind => ?_⟩
  exact Nat.not_le.1 fun hle => hinner (.inr ⟨.inl hkind, hle⟩)

/-- Only a closing brace leads to a place that is less deep, and then it is a boundary. -/
theorem Inside.sheltered_advance (h : Inside base cursor) : Sheltered base cursor.advance := by
  have hle := h.le_depth
  by_cases hclose : cursor.peek.kind = .closeCurly
  · have hdepth : cursor.advance.depth = cursor.depth - 1 := by
      show depthAfter cursor.depth cursor.peek.kind = _
      rw [hclose]
      rfl
    by_cases hdeeper : base < cursor.depth
    · exact .inl (by omega)
    · exact .inr (.inr ⟨.inr hclose, by omega⟩)
  · refine .inl (Nat.le_trans hle ?_)
    show cursor.depth ≤ depthAfter cursor.depth cursor.peek.kind
    unfold depthAfter
    split
    · exact Nat.le_succ _
    · rename_i hkind
      exact absurd hkind hclose
    · exact Nat.le_refl _

theorem sheltered_of_passes (h : start.Passes (Inside base) ts cursor)
    (hstart : Sheltered base start) : Sheltered base cursor := by
  induction h with
  | here => exact hstart
  | on hinside _ ih => exact ih hinside.sheltered_advance

/-- On the way to a boundary, the statement is not left. -/
theorem stays_of_passes (h : cursor.Passes (fun place => ¬ Boundary base place) ts stop)
    (hcursor : Sheltered base cursor) : Stays base cursor stop := by
  induction h with
  | here => exact .here _ _
  | on hinner _ ih =>
    have hinside := inside_of_sheltered hcursor hinner
    exact ((Stays.here _ _).advance hinside).trans (ih hinside.sheltered_advance)

/-- Recovery of the statement that began at `start`, with `base` braces open, and was given up
at `moved`, stops at `stop`. -/
structure Recovers (base : Nat) (start moved stop : Cursor σ) : Prop where
  /-- It is the first boundary from there on. -/
  first : ∃ ts, moved.Passes (fun place => ¬ Boundary base place) ts stop
  boundary : Boundary base stop
  /-- From the beginning of the statement up to there, the block that holds it is open. -/
  stays : Stays base start stop
  /-- Only a semicolon right behind a closing brace is taken along. -/
  synchronize_eq : moved.synchronize base =
    if stop.current.kind = .closeCurly then stop.skipOptional .semicolon else stop

theorem exists_recovers (hstart : Sheltered base start) (h : Stays base start moved) :
    ∃ stop, Recovers base start moved stop := by
  obtain ⟨ts, hts⟩ := h
  obtain ⟨us, stop, hus, hboundary, hstop⟩ := exists_boundary base moved
  have hstays := stays_of_passes hus (sheltered_of_passes hts hstart)
  exact ⟨stop, ⟨us, hus⟩, hboundary, Stays.trans ⟨ts, hts⟩ hstays, hstop⟩

/-! ## One statement -/

/-- A cursor counts the braces from those around its current token on, unless this is a closing
brace. -/
theorem opens_outerDepth (h : cursor.current.kind ≠ .closeCurly) :
    Opens cursor.outerDepth cursor := by
  unfold Opens Cursor.outerDepth
  by_cases hopen : cursor.current.kind = .openCurly
  · have hpos := cursor.depth_pos hopen
    rw [if_pos hopen, hopen]
    exact (Nat.sub_add_cancel hpos).symm
  · rw [if_neg hopen, depthAfter_of_ne hopen h]

theorem outerDepth_le (cursor : Cursor σ) : cursor.outerDepth ≤ cursor.depth := by
  unfold Cursor.outerDepth
  split
  · exact Nat.sub_le _ _
  · exact Nat.le_refl _

/-- No statement begins with a closing brace. -/
theorem stmt_of_closeCurly (h : cursor.current.kind = .closeCurly) :
    ∃ diagnostic, (reader standard).stmt cursor = .fail diagnostic cursor := by
  refine ⟨⟨.noExpression .closeCurly cursor.current.text, cursor.current.start⟩,
    Outcome.eq_fail_of_ensures ?_⟩
  rw [reader_stmt standard_stopsAtEnd]
  refine ensures_stmtStep.2 ⟨fun rule hrule => ?_, fun _ => ?_⟩
  · rw [h] at hrule
    cases hrule
  · rw [ensures_expression, reader_expr standard_stopsAtEnd]
    refine ensures_exprStep.2 ⟨fun rule hrule => ?_, fun _ => ⟨by rw [h], rfl⟩⟩
    rw [h] at hrule
    cases hrule

/-- What is known of a statement that is read where `base` braces are open. -/
theorem stmt_disciplined (cursor : Cursor σ) :
    ((reader standard).stmt cursor).Ensures False
      (fun _ moved => Ends cursor.outerDepth cursor moved)
      fun _ moved => Stays cursor.outerDepth cursor moved := by
  by_cases hclose : cursor.current.kind = .closeCurly
  · obtain ⟨diagnostic, hfail⟩ := stmt_of_closeCurly hclose
    rw [hfail]
    exact .here _ _
  · have hdisciplined := reader_disciplined.stmt cursor.outerDepth cursor cursor
      ⟨.here _ _, opens_outerDepth hclose⟩
    have hne := ((reader_answers standard_stopsAtEnd).stmt cursor).ne_exhausted
    exact (hdisciplined.of_ne_exhausted hne).mono id (fun _ _ => id) fun _ _ hbreaks =>
      hbreaks.stays

end BraceLang.Recovery

namespace BraceLang.Parser

open Recovery

variable {σ : Type} [TokenSource σ]

/-- A statement is read or refused, at whatever nesting.  While this is done, no place is passed
that is less deep than the statement began, and no semicolon that is no deeper.  A statement
that is read ends as deep as it began.  From where one is refused, recovery stops at the first
boundary, and that is not behind the end of the block that holds the statement. -/
theorem parseStmt_disciplined (parser : Parser σ) (hgrammar : parser.grammar = .standard) :
    let base := parser.cursor.outerDepth
    (parser.parseStmt .stmt).Ensures False
      (fun _ moved => Stays base parser.cursor moved.cursor ∧ moved.cursor.depth = base)
      fun _ moved => Stays base parser.cursor moved.cursor ∧
        ∃ stop, Recovers base parser.cursor moved.cursor stop := by
  intro base
  have hread : parser.parseStmt .stmt = ((reader parser.grammar).stmt parser.cursor).mapState
      fun cursor => { parser with cursor } := rfl
  rw [hread, hgrammar, Outcome.ensures_mapState]
  refine (stmt_disciplined parser.cursor).mono id (fun statement moved hends => ?_)
    fun diagnostic moved hstays => ?_
  · exact ⟨hends.stays, hends.depth_eq⟩
  · exact ⟨hstays, exists_recovers (.inl (outerDepth_le _)) hstays⟩

/-- A binding without its sign, in a block that is closed right behind it. -/
theorem parseStmt_disciplined_block :
    let place : Span := ⟨⟨0, "block"⟩, ⟨0, "block"⟩⟩
    let name : Token := ⟨.identifier, "a", place⟩
    let tokens : List Token := [⟨.ifWord, "if", place⟩, name, ⟨.openCurly, "\x7b", place⟩,
      ⟨.letWord, "let", place⟩, name, name, ⟨.closeCurly, "\x7d", place⟩,
      ⟨.semicolon, ";", place⟩, name]
    let parser := (Parser.start (TokenBuffer.ofList tokens)).afterAll [.advance, .advance, .advance]
    parser.cursor.outerDepth = 1 ∧ ∃ diagnostic moved,
      parser.parseStmt .stmt = .fail diagnostic moved ∧
        Stays 1 parser.cursor moved.cursor ∧
          ∃ stop, Recovers 1 parser.cursor moved.cursor stop := by
  intro place name tokens parser
  have hdisciplined := parseStmt_disciplined parser rfl
  exact ⟨rfl, _, _, rfl, hdisciplined⟩

end BraceLang.Parser
