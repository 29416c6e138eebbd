import BraceLang.Parser.Basic
import BraceLang.Proofs.Parser.Fuel
import BraceLang.Token.Buffer

/-!
# Floors

The floor of an expression decides where the expression ends, and nothing else.  An
expression above a lower floor is one above a higher floor, made longer above the lower one
from the place where it ended (`reader_expr_of_le`).  So a higher floor cuts an expression
off earlier, and what cannot be read above it cannot be read above a lower one
(`Parser.parseExpr_floor`).

A trailing rule is given the power of its token and never the floor, so it does the same above
either of them.  The two readings follow the same rules until the higher floor ends the first
one (`reader_chain_of_le`), by induction on what is left of the source.
-/

namespace BraceLang

open BraceLang.Action Descent

variable {σ : Type} [TokenSource σ] {grammar : Grammar} {floor higher : BindingPower}
  {cursor : Cursor σ}

/-- What goes on above a floor goes on above a lower one, and by the same rule. -/
theorem Grammar.continuation_of_le (hle : floor ≤ higher) {kind : TokenKind}
    {entry : BindingPower × TrailingRule} (h : grammar.continuation higher kind = some entry) :
    grammar.continuation floor kind = some entry := by
  obtain ⟨power, rule⟩ := entry
  obtain ⟨htrailing, hkind, hlt⟩ := continuation_eq_some.1 h
  exact continuation_eq_some.2 ⟨htrailing, hkind, Nat.lt_of_le_of_lt hle hlt⟩

theorem remaining_of_reader_trail (hg : grammar.StopsAtEnd) {left longer : Expr}
    {power : BindingPower} {rule : TrailingRule} {moved : Cursor σ}
    (h : (reader grammar).trail left power rule cursor = .ok longer moved) :
    moved.remaining ≤ cursor.remaining := by
  have hanswer := (reader_answers hg).suffices.trail left power rule
    (Nat.le_add_left 2 (4 * cursor.remaining)) (Nat.le_add_right _ 2)
  rw [h] at hanswer
  exact hanswer

/-- Making an expression longer above a floor is making it longer above a higher one first. -/
theorem reader_chain_of_le (hg : grammar.StopsAtEnd) (hle : floor ≤ higher) (left : Expr)
    (cursor : Cursor σ) :
    (reader grammar).chain floor left cursor =
      ((reader grammar).chain higher left >>= (reader grammar).chain floor) cursor := by
  apply Outcome.eq_of_ensures
  intro stopped ok bad h
  rw [ensures_bind, reader_chain hg higher, ensures_chainStep] at h
  cases hrule : grammar.continuation higher cursor.peek.kind with
  | none => exact h.2 hrule
  | some entry =>
    obtain ⟨power, rule⟩ := entry
    have hlower := Grammar.continuation_of_le hle hrule
    have hlt := Cursor.remaining_advance_lt (Cursor.current_ne_eof (hg.kind_ne_eof hrule))
    have hfirst := h.1 power rule hrule
    rw [reader_chain hg floor]
    refine ensures_chainStep.2 ⟨fun power' rule' hrule' => ?_, fun hnone => ?_⟩
    · obtain ⟨rfl, rfl⟩ := Prod.mk.inj (Option.some.inj (hlower.symm.trans hrule'))
      cases htrail : (reader grammar).trail left power rule cursor.advance with
      | ok longer moved =>
        have hmoved := remaining_of_reader_trail hg htrail
        rw [htrail] at hfirst
        rw [Outcome.ensures_ok, reader_chain_of_le hg hle longer moved, ensures_bind]
        exact hfirst
      | fail diagnostic moved =>
        rw [htrail] at hfirst
        exact hfirst
      | exhausted =>
        rw [htrail] at hfirst
        exact hfirst
    · rw [hlower] at hnone
      cases hnone
termination_by cursor.remaining

/-- Reading an expression above a floor is reading one above a higher floor first, and then
making it longer. -/
theorem reader_expr_of_le (hg : grammar.StopsAtEnd) (hle : floor ≤ higher) (cursor : Cursor σ) :
    (reader grammar).expr floor cursor =
      ((reader grammar).expr higher >>= (reader grammar).chain floor) cursor := by
  apply Outcome.eq_of_ensures
  intro stopped ok bad h
  rw [ensures_bind, reader_expr hg higher, ensures_exprStep] at h
  rw [reader_expr hg floor]
  refine ensures_exprStep.2 ⟨fun rule hrule => ?_, h.2⟩
  apply (h.1 rule hrule).imp
  intro left moved hchain
  rw [reader_chain_of_le hg hle, ensures_bind]
  exact hchain

namespace Parser

variable {parser : Parser σ}

/-- Reading an expression is answered.  If one is read above a floor, then going on above a
lower floor from there, with what was read, is the same as reading above the lower floor from
the beginning: it gives the same and leaves the parser the same.  If none can be read above a
floor, it is refused above a lower one with the same diagnostic, and at the same place. -/
theorem parseExpr_floor (parser : Parser σ) (hg : parser.grammar.StopsAtEnd)
    (hle : floor ≤ higher) :
    parser.parseExpr (.expr higher) ≠ .exhausted ∧
    (∀ left moved, parser.parseExpr (.expr higher) = .ok left moved →
      moved.run (moved.descent.chain floor left) = parser.parseExpr (.expr floor)) ∧
    ∀ diagnostic moved, parser.parseExpr (.expr higher) = .fail diagnostic moved →
      parser.parseExpr (.expr floor) = .fail diagnostic moved := by
  have hread : ∀ floor, parser.parseExpr (.expr floor) =
      ((reader parser.grammar).expr floor parser.cursor).mapState
        fun cursor => { parser with cursor } := fun _ => rfl
  have hlower := reader_expr_of_le hg hle parser.cursor
  rw [bind_apply] at hlower
  rw [hread, hread, hlower]
  cases hhigher : (reader parser.grammar).expr higher parser.cursor with
  | ok left cursor =>
    refine ⟨fun hstop => (by cases hstop), fun left' moved heq => ?_, fun _ _ heq => (by cases heq)⟩
    cases heq
    rfl
  | fail diagnostic cursor =>
    refine ⟨fun hstop => (by cases hstop), fun _ _ heq => (by cases heq), fun _ moved heq => ?_⟩
    cases heq
    rfl
  | exhausted => exact absurd hhigher ((reader_answers hg).expr higher parser.cursor).ne_exhausted

/-- A product is read above the floor of sums, and the sum that it begins is read on from its
end. -/
theorem parseExpr_floor_product :
    let place : Span := ⟨⟨0, "product"⟩, ⟨0, "product"⟩⟩
    let name : Token := ⟨.identifier, "a", place⟩
    let star : Token := ⟨.star, "*", place⟩
    let plus : Token := ⟨.plus, "+", place⟩
    let read : Expr := .ident ⟨name, "a"⟩
    let product : Expr := .binary star "*" read read
    let parser := Parser.start (TokenBuffer.ofList [name, star, name, plus, name])
    ∃ moved, parser.parseExpr (.expr .additive) = .ok product moved ∧
      moved.peek = plus ∧
      moved.run (moved.descent.chain .default product) = parser.parseExpr (.expr .default) := by
  intro place name star plus read product parser
  have hle : BindingPower.default ≤ .additive := by decide
  have hfloor := parseExpr_floor parser Grammar.standard_stopsAtEnd hle
  exact ⟨_, rfl, rfl, hfloor.2.1 product _ rfl⟩

end Parser

end BraceLang
