import BraceLang.Proofs.Parser.Comparison
import BraceLang.Proofs.Syntax.Standard

/-!
# Blocks that are interrupted

Two readings are alike up to an opening brace, and behind the brace the second one is
given up: this is a `Fork`.  Where the first reading gets over the brace, the whole of the
second one is given up there, with the same diagnostic; where it ends in front of the
brace, the second one ends in the same way at the same place (`descent_diverted`).

A brace is never passed but by the rules that read a block.  So these rules are the only
ones in which the two readings part (`Diverted.block`); the others hand on what becomes
of their parts, step by step (`Diverts.bind`).
-/

namespace BraceLang.Recovery

open Grammar Descent Outcome

variable {σ τ : Type} [TokenSource σ] [TokenSource τ] {α β : Type}

/-- Two cursors in front of the same tokens up to an opening brace.  Statements behind the
brace are given up in the second reading. -/
structure Fork (σ τ : Type) [TokenSource σ] [TokenSource τ] where
  start : Cursor σ
  start' : Cursor τ
  /-- How far ahead the brace is. -/
  brace : Nat
  diagnostic : Diagnostic
  broken : Cursor τ
  current_eq : ∀ place ≤ brace, (start.skip place).current = (start'.skip place).current
  kind_eq : (start.skip brace).current.kind = .openCurly
  stmts_eq : (reader standard).stmts (start'.skip (brace + 1)) = .fail diagnostic broken

namespace Fork

variable {p : Fork σ τ} {place : Nat}

/-- The first outcome is the second one as well if it is in front of the brace, and
otherwise the second one is given up. -/
def Diverts (p : Fork σ τ) (outcome : Outcome (Cursor σ) α) (outcome' : Outcome (Cursor τ) α) :
    Prop :=
  outcome.Gives fun value moved =>
    (∃ place < p.brace, moved = p.start.skip place ∧ outcome' = .ok value (p.start'.skip place)) ∨
      outcome' = .fail p.diagnostic p.broken

/-- A token that is no opening brace is not the one where the readings part. -/
theorem lt_of_current (hle : place ≤ p.brace)
    (hkind : (p.start.skip place).current.kind ≠ .openCurly) : place < p.brace := by
  apply Nat.lt_of_le_of_ne hle
  intro heq
  subst heq
  exact hkind p.kind_eq

theorem lt_of_peek (hlt : place < p.brace) {kind : TokenKind}
    (hkind : (p.start.skip place).peek.kind = kind) (hne : kind ≠ .openCurly) :
    place + 1 < p.brace :=
  lt_of_current hlt fun hopen => hne (hkind.symm.trans hopen)

namespace Diverts

/-- Nothing is asked of the first outcome where the second one is given up. -/
theorem of_fail {outcome : Outcome (Cursor σ) α} {outcome' : Outcome (Cursor τ) α}
    (h : outcome' = .fail p.diagnostic p.broken) : p.Diverts outcome outcome' := by
  cases outcome with
  | ok value moved => exact .inr h
  | fail diagnostic moved => trivial
  | exhausted => trivial

/-- Actions in a row. -/
theorem bind {first : Action σ α} {first' : Action τ α} {rest : α → Action σ β}
    {rest' : α → Action τ β}
    (h : p.Diverts (first (p.start.skip place)) (first' (p.start'.skip place)))
    (hrest : ∀ value place', place' < p.brace →
      p.Diverts (rest value (p.start.skip place')) (rest' value (p.start'.skip place'))) :
    p.Diverts ((first >>= rest) (p.start.skip place))
      ((first' >>= rest') (p.start'.skip place)) := by
  rw [Action.bind_apply, Action.bind_apply]
  cases hfirst : first (p.start.skip place) with
  | ok value moved =>
    rw [hfirst] at h
    rcases h with ⟨place', hlt, rfl, hfirst'⟩ | hfail
    · rw [hfirst']
      exact hrest value place' hlt
    · rw [hfail]
      exact of_fail rfl
  | fail diagnostic moved => trivial
  | exhausted => trivial

/-! ### Single steps -/

theorem pure (value : α) (hlt : place < p.brace) :
    p.Diverts ((Pure.pure value : Action σ α) (p.start.skip place))
      ((Pure.pure value : Action τ α) (p.start'.skip place)) :=
  .inl ⟨place, hlt, rfl, rfl⟩

section Tokens

variable {rest : Token → Action σ α} {rest' : Token → Action τ α}

theorem current (hle : place ≤ p.brace)
    (h : p.Diverts (rest (p.start.skip place).current (p.start.skip place))
      (rest' (p.start.skip place).current (p.start'.skip place))) :
    p.Diverts ((Action.current >>= rest) (p.start.skip place))
      ((Action.current >>= rest') (p.start'.skip place)) := by
  show p.Diverts (rest (p.start.skip place).current _) (rest' (p.start'.skip place).current _)
  rw [← p.current_eq place hle]
  exact h

theorem peek (hlt : place < p.brace)
    (h : p.Diverts (rest (p.start.skip place).peek (p.start.skip place))
      (rest' (p.start.skip place).peek (p.start'.skip place))) :
    p.Diverts ((Action.peek >>= rest) (p.start.skip place))
      ((Action.peek >>= rest') (p.start'.skip place)) := by
  have hpeek : (p.start.skip place).peek = (p.start'.skip place).peek := p.current_eq _ hlt
  show p.Diverts (rest (p.start.skip place).peek _) (rest' (p.start'.skip place).peek _)
  rw [← hpeek]
  exact h

theorem expect (kind : TokenKind) (construct : String) (hlt : place < p.brace)
    (h : (p.start.skip place).peek.kind = kind →
      p.Diverts (rest (p.start.skip place).peek (p.start.skip (place + 1)))
        (rest' (p.start.skip place).peek (p.start'.skip (place + 1)))) :
    p.Diverts ((Action.expect kind construct >>= rest) (p.start.skip place))
      ((Action.expect kind construct >>= rest') (p.start'.skip place)) := by
  have hpeek : (p.start.skip place).peek = (p.start'.skip place).peek := p.current_eq _ hlt
  rw [Action.bind_apply, Action.bind_apply]
  unfold Action.expect
  by_cases hkind : (p.start.skip place).peek.kind = kind
  · rw [if_pos hkind, if_pos (hpeek ▸ hkind), ← hpeek]
    exact h hkind
  · rw [if_neg hkind]
    trivial

end Tokens

variable {rest : Unit → Action σ α} {rest' : Unit → Action τ α}

theorem advance
    (h : p.Diverts (rest () (p.start.skip (place + 1))) (rest' () (p.start'.skip (place + 1)))) :
    p.Diverts ((Action.advance >>= rest) (p.start.skip place))
      ((Action.advance >>= rest') (p.start'.skip place)) :=
  h

theorem skipOptional (hlt : place < p.brace)
    (h : ∀ place' < p.brace, p.Diverts (rest () (p.start.skip place'))
      (rest' () (p.start'.skip place'))) :
    p.Diverts ((Action.skipOptional .semicolon >>= rest) (p.start.skip place))
      ((Action.skipOptional .semicolon >>= rest') (p.start'.skip place)) := by
  have hpeek : (p.start.skip place).peek = (p.start'.skip place).peek := p.current_eq _ hlt
  show p.Diverts (rest () ((p.start.skip place).skipOptional .semicolon))
    (rest' () ((p.start'.skip place).skipOptional .semicolon))
  unfold Cursor.skipOptional
  by_cases hkind : (p.start.skip place).peek.kind = .semicolon
  · rw [if_pos hkind, if_pos (hpeek ▸ hkind)]
    exact h (place + 1) (lt_of_peek hlt hkind (by decide))
  · rw [if_neg hkind, if_neg (hpeek ▸ hkind)]
    exact h place hlt

end Diverts

/-! ## Rules -/

/-- The readings of the entry points part at the brace. -/
structure Diverted (p : Fork σ τ) (d : Descent σ) : Prop where
  expr : ∀ (floor : BindingPower) (place : Nat), place ≤ p.brace →
    p.Diverts (d.expr floor (p.start.skip place))
      ((reader standard).expr floor (p.start'.skip place))
  chain : ∀ (floor : BindingPower) (left : Expr) (place : Nat), place < p.brace →
    p.Diverts (d.chain floor left (p.start.skip place))
      ((reader standard).chain floor left (p.start'.skip place))
  stmt : ∀ place ≤ p.brace,
    p.Diverts (d.stmt (p.start.skip place)) ((reader standard).stmt (p.start'.skip place))
  stmts : ∀ place ≤ p.brace,
    p.Diverts (d.stmts (p.start.skip place)) ((reader standard).stmts (p.start'.skip place))
  parameters : ∀ place < p.brace,
    p.Diverts (d.parameters (p.start.skip place))
      ((reader standard).parameters (p.start'.skip place))
  arguments : ∀ place < p.brace,
    p.Diverts (d.arguments (p.start.skip place))
      ((reader standard).arguments (p.start'.skip place))

namespace Diverted

open Diverts

variable {d : Descent σ}

/-- A block begins in front of the brace, or with it. -/
theorem block (h : p.Diverted d) (hle : place ≤ p.brace) :
    p.Diverts (d.block (p.start.skip place)) ((reader standard).block (p.start'.skip place)) := by
  rcases Nat.lt_or_eq_of_le hle with hlt | rfl
  · apply current hle
    apply advance
    apply bind (h.stmts (place + 1) hlt)
    intro body place hlt
    exact pure _ hlt
  · apply of_fail
    apply eq_fail_of_ensures
    apply ensures_block.2
    rw [show (p.start'.skip p.brace).advance = p.start'.skip (p.brace + 1) from rfl, p.stmts_eq]
    exact ⟨rfl, rfl⟩

theorem literal (hlt : place < p.brace) :
    p.Diverts (Descent.literal (p.start.skip place)) (Descent.literal (p.start'.skip place)) := by
  apply current (Nat.le_of_lt hlt)
  cases (p.start.skip place).current.kind with
  | integer =>
    cases Text.readInt64? (p.start.skip place).current.text with
    | some value => exact pure _ hlt
    | none => trivial
  | identifier => exact pure _ hlt
  | string => exact pure _ hlt
  | trueWord => exact pure _ hlt
  | falseWord => exact pure _ hlt
  | _ => trivial

theorem operator (h : p.Diverted d) (hlt : place < p.brace) :
    p.Diverts (d.operator (p.start.skip place))
      ((reader standard).operator (p.start'.skip place)) := by
  apply current (Nat.le_of_lt hlt)
  apply advance
  apply bind (h.expr .unary (place + 1) hlt)
  intro operand place hlt
  exact pure _ hlt

theorem group (h : p.Diverted d) (hlt : place < p.brace) :
    p.Diverts (d.group (p.start.skip place)) ((reader standard).group (p.start'.skip place)) := by
  apply advance
  apply bind (h.expr .default (place + 1) hlt)
  intro inner place hlt
  apply expect .closeParen _ hlt
  intro hclose
  exact pure _ (lt_of_peek hlt hclose (by decide))

theorem alternative (h : p.Diverted d) (hlt : place < p.brace) :
    p.Diverts (d.alternative (p.start.skip place))
      ((reader standard).alternative (p.start'.skip place)) := by
  apply peek hlt
  by_cases hword : (p.start.skip place).peek.kind = .elseWord
  · rw [if_pos hword, if_pos hword]
    have hlt : place + 1 < p.brace := lt_of_peek hlt hword (by decide)
    apply advance
    apply expect .openCurly _ hlt
    intro _
    apply bind (h.block hlt)
    intro body place hlt
    exact pure _ hlt
  · rw [if_neg hword, if_neg hword]
    exact pure _ hlt

theorem conditional (h : p.Diverted d) (hlt : place < p.brace) :
    p.Diverts (d.conditional (p.start.skip place))
      ((reader standard).conditional (p.start'.skip place)) := by
  apply current (Nat.le_of_lt hlt)
  apply advance
  apply bind (h.expr .default (place + 1) hlt)
  intro condition place hlt
  apply expect .openCurly _ hlt
  intro _
  apply bind (h.block hlt)
  intro consequence place hlt
  apply bind (h.alternative hlt)
  intro other place hlt
  exact pure _ hlt

theorem parameterList (h : p.Diverted d) (hlt : place < p.brace) :
    p.Diverts (d.parameterList (p.start.skip place))
      ((reader standard).parameterList (p.start'.skip place)) := by
  apply peek hlt
  by_cases hclose : (p.start.skip place).peek.kind = .closeParen
  · rw [if_pos hclose, if_pos hclose]
    exact advance (pure _ (lt_of_peek hlt hclose (by decide)))
  · rw [if_neg hclose, if_neg hclose]
    apply bind (h.parameters place hlt)
    intro names place hlt
    apply expect .closeParen _ hlt
    intro hclose
    exact pure _ (lt_of_peek hlt hclose (by decide))

theorem function (h : p.Diverted d) (hlt : place < p.brace) :
    p.Diverts (d.function (p.start.skip place))
      ((reader standard).function (p.start'.skip place)) := by
  apply current (Nat.le_of_lt hlt)
  apply expect .openParen _ hlt
  intro hparen
  apply bind (h.parameterList (lt_of_peek hlt hparen (by decide)))
  intro names place hlt
  apply expect .openCurly _ hlt
  intro _
  apply bind (h.block hlt)
  intro body place hlt
  exact pure _ hlt

theorem lead (h : p.Diverted d) (rule : LeadingRule) (hlt : place < p.brace) :
    p.Diverts (d.lead rule (p.start.skip place))
      ((reader standard).lead rule (p.start'.skip place)) := by
  cases rule with
  | literal => exact literal hlt
  | operator => exact h.operator hlt
  | group => exact h.group hlt
  | conditional => exact h.conditional hlt
  | function => exact h.function hlt

theorem binary (h : p.Diverted d) (left : Expr) (floor : BindingPower) (hlt : place < p.brace) :
    p.Diverts (d.binary left floor (p.start.skip place))
      ((reader standard).binary left floor (p.start'.skip place)) := by
  apply current (Nat.le_of_lt hlt)
  apply advance
  apply bind (h.expr floor (place + 1) hlt)
  intro right place hlt
  exact pure _ hlt

theorem argumentList (h : p.Diverted d) (hlt : place < p.brace) :
    p.Diverts (d.argumentList (p.start.skip place))
      ((reader standard).argumentList (p.start'.skip place)) := by
  apply peek hlt
  by_cases hclose : (p.start.skip place).peek.kind = .closeParen
  · rw [if_pos hclose, if_pos hclose]
    exact advance (pure _ (lt_of_peek hlt hclose (by decide)))
  · rw [if_neg hclose, if_neg hclose]
    apply advance
    apply bind (h.expr .default (place + 1) hlt)
    intro first place hlt
    apply bind (h.arguments place hlt)
    intro others place hlt
    apply expect .closeParen _ hlt
    intro hclose
    exact pure _ (lt_of_peek hlt hclose (by decide))

theorem trail (h : p.Diverted d) (left : Expr) (power : BindingPower) (rule : TrailingRule)
    (hlt : place < p.brace) :
    p.Diverts (d.trail left power rule (p.start.skip place))
      ((reader standard).trail left power rule (p.start'.skip place)) := by
  cases rule with
  | binary => exact h.binary left power hlt
  | binaryRight => exact h.binary left power.pred hlt
  | call =>
    apply current (Nat.le_of_lt hlt)
    apply bind (h.argumentList hlt)
    intro args place hlt
    exact pure _ hlt
  | bareCall =>
    apply current (Nat.le_of_lt hlt)
    exact pure _ hlt

/-! ### Expressions -/

theorem exprStep (h : p.Diverted d) (floor : BindingPower) (hle : place ≤ p.brace) :
    p.Diverts (exprStep standard d floor (p.start.skip place))
      (exprStep standard (reader standard) floor (p.start'.skip place)) := by
  rw [exprStep_eq, exprStep_eq, ← p.current_eq place hle]
  cases hrule : standard.leading (p.start.skip place).current.kind with
  | some rule =>
    have hlt : place < p.brace := lt_of_current hle fun hopen => by
      rw [hopen] at hrule
      cases hrule
    apply bind (h.lead rule hlt)
    intro left place hlt
    exact h.chain floor left place hlt
  | none => trivial

theorem chainStep (h : p.Diverted d) (floor : BindingPower) (left : Expr)
    (hlt : place < p.brace) :
    p.Diverts (chainStep standard d floor left (p.start.skip place))
      (chainStep standard (reader standard) floor left (p.start'.skip place)) := by
  have hpeek : (p.start.skip place).peek = (p.start'.skip place).peek := p.current_eq _ hlt
  rw [chainStep_eq, chainStep_eq, ← hpeek]
  cases hrule : standard.trailing (p.start.skip place).peek.kind with
  | some entry =>
    obtain ⟨power, rule⟩ := entry
    have hlt' : place + 1 < p.brace := lt_of_peek hlt rfl fun hopen => by
      rw [hopen] at hrule
      cases hrule
    simp only [goOn?]
    split
    · apply advance
      apply bind (h.trail left power rule hlt')
      intro longer place hlt
      exact h.chain floor longer place hlt
    · exact pure _ hlt
  | none => exact pure _ hlt

theorem parametersStep (h : p.Diverted d) (hlt : place < p.brace) :
    p.Diverts (parametersStep d (p.start.skip place))
      (parametersStep (reader standard) (p.start'.skip place)) := by
  apply expect .identifier _ hlt
  intro hname
  have hlt : place + 1 < p.brace := lt_of_peek hlt hname (by decide)
  apply peek hlt
  by_cases hcomma : (p.start.skip (place + 1)).peek.kind = .comma
  · rw [if_pos hcomma, if_pos hcomma]
    have hlt : place + 2 < p.brace := lt_of_peek hlt hcomma (by decide)
    apply advance
    apply bind (h.parameters (place + 2) hlt)
    intro others place hlt
    exact pure _ hlt
  · rw [if_neg hcomma, if_neg hcomma]
    exact pure _ hlt

theorem argumentsStep (h : p.Diverted d) (hlt : place < p.brace) :
    p.Diverts (argumentsStep d (p.start.skip place))
      (argumentsStep (reader standard) (p.start'.skip place)) := by
  apply peek hlt
  by_cases hcomma : (p.start.skip place).peek.kind = .comma
  · rw [if_pos hcomma, if_pos hcomma]
    have hlt : place + 1 < p.brace := lt_of_peek hlt hcomma (by decide)
    apply advance
    apply advance
    apply bind (h.expr .default (place + 2) hlt)
    intro argument place hlt
    apply bind (h.arguments place hlt)
    intro others place hlt
    exact pure _ hlt
  · rw [if_neg hcomma, if_neg hcomma]
    exact pure _ hlt

/-! ### Statements -/

theorem binding (h : p.Diverted d) (hlt : place < p.brace) :
    p.Diverts (d.binding (p.start.skip place))
      ((reader standard).binding (p.start'.skip place)) := by
  apply current (Nat.le_of_lt hlt)
  apply expect .identifier _ hlt
  intro hname
  have hlt : place + 1 < p.brace := lt_of_peek hlt hname (by decide)
  apply expect .assignment _ hlt
  intro hsign
  have hlt : place + 2 < p.brace := lt_of_peek hlt hsign (by decide)
  apply advance
  apply bind (h.expr .default (place + 3) hlt)
  intro value place hlt
  apply skipOptional hlt
  intro place hlt
  exact pure _ hlt

theorem resultValue (h : p.Diverted d) (hlt : place < p.brace) :
    p.Diverts (d.resultValue (p.start.skip place))
      ((reader standard).resultValue (p.start'.skip place)) := by
  apply peek hlt
  split
  · exact pure _ hlt
  · apply advance
    apply bind (h.expr .default (place + 1) hlt)
    intro value place hlt
    exact pure _ hlt

theorem result (h : p.Diverted d) (hlt : place < p.brace) :
    p.Diverts (d.result (p.start.skip place))
      ((reader standard).result (p.start'.skip place)) := by
  apply current (Nat.le_of_lt hlt)
  apply bind (h.resultValue hlt)
  intro value place hlt
  apply skipOptional hlt
  intro place hlt
  exact pure _ hlt

theorem expression (h : p.Diverted d) (hle : place ≤ p.brace) :
    p.Diverts (d.expression (p.start.skip place))
      ((reader standard).expression (p.start'.skip place)) := by
  apply current hle
  apply bind (h.expr .default place hle)
  intro value place hlt
  apply skipOptional hlt
  intro place hlt
  exact pure _ hlt

theorem stmtStep (h : p.Diverted d) (hle : place ≤ p.brace) :
    p.Diverts (stmtStep standard d (p.start.skip place))
      (stmtStep standard (reader standard) (p.start'.skip place)) := by
  rw [stmtStep_eq, stmtStep_eq, ← p.current_eq place hle]
  cases hrule : standard.statement (p.start.skip place).current.kind with
  | some rule =>
    have hlt : place < p.brace := lt_of_current hle fun hopen => by
      rw [hopen] at hrule
      cases hrule
    rcases Syntax.statement_cases hrule with ⟨_, rfl⟩ | ⟨_, rfl⟩
    · exact h.binding hlt
    · exact h.result hlt
  | none => exact h.expression hle

theorem stmtsStep (h : p.Diverted d) (hle : place ≤ p.brace) :
    p.Diverts (stmtsStep d (p.start.skip place))
      (stmtsStep (reader standard) (p.start'.skip place)) := by
  apply current hle
  by_cases hclose : (p.start.skip place).current.kind = .closeCurly
  · rw [if_pos hclose, if_pos hclose]
    exact pure _ (lt_of_current hle (by rw [hclose]; decide))
  rw [if_neg hclose, if_neg hclose]
  split
  · trivial
  · apply bind (h.stmt place hle)
    intro first place hlt
    apply advance
    apply bind (h.stmts (place + 1) hlt)
    intro others place hlt
    exact pure _ hlt

theorem step (h : p.Diverted d) : p.Diverted (Descent.step standard d) where
  expr floor place hle := by
    rw [reader_expr standard_stopsAtEnd]
    exact h.exprStep floor hle
  chain floor left place hlt := by
    rw [reader_chain standard_stopsAtEnd]
    exact h.chainStep floor left hlt
  stmt place hle := by
    rw [reader_stmt standard_stopsAtEnd]
    exact h.stmtStep hle
  stmts place hle := by
    rw [reader_stmts standard_stopsAtEnd]
    exact h.stmtsStep hle
  parameters place hlt := by
    rw [reader_parameters standard_stopsAtEnd]
    exact h.parametersStep hlt
  arguments place hlt := by
    rw [reader_arguments standard_stopsAtEnd]
    exact h.argumentsStep hlt

end Diverted

/-- All entry points part at the brace, with any fuel for the first reading. -/
theorem descent_diverted (p : Fork σ τ) (fuel : Nat) : p.Diverted (descent standard fuel) := by
  induction fuel with
  | zero => constructor <;> intros <;> trivial
  | succ fuel ih =>
    rw [descent_succ]
    exact ih.step

/-- A statement that goes on over the brace is given up in the second reading. -/
theorem stmt_fail (p : Fork σ τ) {statement : Stmt} {moved : Cursor σ}
    (h : (reader standard).stmt p.start = .ok statement moved)
    (hbehind : ∀ place < p.brace, moved ≠ p.start.skip place) :
    (reader standard).stmt p.start' = .fail p.diagnostic p.broken := by
  have hdiverts := (descent_diverted p p.start.fuel).stmt 0 (Nat.zero_le _)
  rw [show (descent standard p.start.fuel).stmt (p.start.skip 0) = .ok statement moved from h]
    at hdiverts
  rcases hdiverts with ⟨place, hlt, hmoved, _⟩ | hfail
  · exact absurd hmoved (hbehind place hlt)
  · exact hfail

end Fork

end BraceLang.Recovery
