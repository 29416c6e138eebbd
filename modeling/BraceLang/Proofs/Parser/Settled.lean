import BraceLang.Parser.Basic
import BraceLang.Proofs.Parser.Comparison

/-!
# Fuel for any grammar

Where a grammar lets expressions begin or go on with an end token, the parser may
never answer, since an advance from the end gets nowhere.  Whether it does is
settled all the same by the time it has used the fuel of its cursor: more fuel
changes nothing then, for any grammar (`ExprEntry.settled`, `StmtEntry.settled`,
`block_settled`).

* At the end, an entry point that uses more than two units uses them all
  (`expr_of_eof`, `chain_of_bareCall`).
* `descent_belowUpTo`: from there on, each token that is left costs at most four
  units, as it does in a grammar that stops at the end.
-/

namespace BraceLang

open BraceLang.Action Descent

variable {σ : Type} [TokenSource σ] {α : Type} {grammar : Grammar} {cursor : Cursor σ}
  {count fuel fuel' : Nat}

/-! ## One entry point at a time -/

section Entry

variable (entry : Descent σ → Outcome (Cursor σ) α)

/-- Two amounts of fuel are compared one step down, since an entry point without fuel stops. -/
theorem below_of_step (hstop : entry .exhausted = .exhausted) (hpos : 0 < fuel')
    (hstep : ∀ less less', fuel' = less' + 1 →
      (entry (Descent.step grammar (descent grammar less))).Below
        (entry (Descent.step grammar (descent grammar less')))) :
    (entry (descent grammar fuel)).Below (entry (descent grammar fuel')) := by
  obtain ⟨less', rfl⟩ : ∃ less', fuel' = less' + 1 := ⟨fuel' - 1, by omega⟩
  cases fuel with
  | zero => exact .inl hstop
  | succ less => exact hstep less less' rfl

/-- One unit settles an entry point whose step does the same with any parts. -/
theorem belowIn_of_step {P : Cursor σ → Prop} {outcome : Outcome (Cursor σ) α}
    (hstop : entry .exhausted = .exhausted)
    (hstep : ∀ d, entry (Descent.step grammar d) = outcome)
    (hgives : outcome.Gives fun _ moved => P moved) :
    (entry (descent grammar fuel)).BelowIn P (entry (descent grammar (fuel' + 1))) where
  below := below_of_step entry hstop (Nat.succ_pos fuel') fun less less' _ =>
    .inr ((hstep _).trans (hstep _).symm)
  gives := by
    cases fuel with
    | zero =>
      rw [descent_zero, hstop]
      trivial
    | succ less =>
      rw [descent_succ, hstep]
      exact hgives

end Entry

/-! ## At the end -/

theorem literal_of_eof (heof : cursor.current.kind = .eof) :
    literal cursor = .fail ⟨.noExpression .eof cursor.current.text, cursor.current.start⟩
      cursor := by
  refine Outcome.eq_fail_of_ensures (ensures_literal.2 ⟨fun _ hliteral => ?_, fun _ hliteral => ?_⟩)
  · simp [Token.literal, heof] at hliteral
  · obtain rfl : Cause.noExpression .eof cursor.current.text = _ := by
      simpa [Token.literal, heof] using hliteral
    exact ⟨rfl, rfl⟩

theorem function_of_eof (heof : cursor.current.kind = .eof) (d : Descent σ) :
    d.function cursor = .fail (unexpected "function literal" .openParen cursor.peek) cursor := by
  refine Outcome.eq_fail_of_ensures (ensures_function.2 ⟨fun hparen => ?_, fun _ => ⟨rfl, rfl⟩⟩)
  rw [cursor.peek_of_eof heof, heof] at hparen
  cases hparen

/-- A leading rule reads an expression at the end again, and stops if that does, or refuses the
end at once. -/
theorem lead_of_eof (heof : cursor.current.kind = .eof) (rule : LeadingRule) :
    (∀ d : Descent σ, (∀ floor, d.expr floor cursor = .exhausted) →
        d.lead rule cursor = .exhausted) ∨
      ∃ diagnostic, ∀ d : Descent σ, d.lead rule cursor = .fail diagnostic cursor := by
  have hagain : ∀ d : Descent σ, (∀ floor, d.expr floor cursor = .exhausted) → ∀ floor {ok bad},
      (d.expr floor cursor.advance).Ensures True ok bad := by
    intro d hstop floor ok bad
    rw [Cursor.advance_of_eof heof, hstop]
    trivial
  cases rule with
  | literal => exact .inr ⟨_, fun _ => literal_of_eof heof⟩
  | operator =>
    exact .inl fun d hstop =>
      Outcome.eq_exhausted_of_ensures (ensures_operator.2 (hagain d hstop _))
  | group =>
    exact .inl fun d hstop => Outcome.eq_exhausted_of_ensures (ensures_group.2 (hagain d hstop _))
  | conditional =>
    exact .inl fun d hstop =>
      Outcome.eq_exhausted_of_ensures (ensures_conditional.2 (hagain d hstop _))
  | function => exact .inr ⟨_, function_of_eof heof⟩

/-- At the end, an expression is refused at once, or no fuel is enough for it. -/
theorem expr_of_eof (grammar : Grammar) (heof : cursor.current.kind = .eof) :
    (∀ fuel floor, (descent grammar fuel).expr floor cursor = .exhausted) ∨
      ∃ diagnostic, ∀ d floor, exprStep grammar d floor cursor = .fail diagnostic cursor := by
  have hexpr : ∀ d floor, exprStep grammar d floor cursor =
      d.begin? floor cursor.current (grammar.leading .eof) cursor := by
    intro d floor
    rw [exprStep_eq, heof]
  cases hleading : grammar.leading .eof with
  | none =>
    refine .inr ⟨⟨.noExpression cursor.current.kind cursor.current.text, cursor.current.start⟩,
      fun d floor => ?_⟩
    rw [hexpr, hleading]
    rfl
  | some rule =>
    rcases lead_of_eof heof rule with hstop | ⟨diagnostic, hfail⟩
    · refine .inl fun fuel => ?_
      -- The rule asks for an expression in the same place, with one unit less.
      induction fuel with
      | zero => exact fun _ => rfl
      | succ fuel ih =>
        intro floor
        show exprStep grammar (descent grammar fuel) floor cursor = _
        rw [hexpr, hleading, begin?, bind_apply, hstop _ ih]
    · refine .inr ⟨diagnostic, fun d floor => ?_⟩
      rw [hexpr, hleading, begin?, bind_apply, hfail]

theorem expr_gives_of_eof (heof : cursor.current.kind = .eof) (fuel : Nat) (floor : BindingPower) :
    ((descent grammar fuel).expr floor cursor).Gives fun _ _ => False := by
  rcases expr_of_eof grammar heof with hstop | ⟨diagnostic, hfail⟩
  · rw [hstop]
    trivial
  · cases fuel with
    | zero => trivial
    | succ fuel =>
      rw [descent_succ]
      show (exprStep grammar (descent grammar fuel) floor cursor).Gives _
      rw [hfail]
      trivial

theorem stmtsStep_of_eof (heof : cursor.current.kind = .eof) (d : Descent σ) :
    stmtsStep d cursor = .fail (unexpected "block" .closeCurly cursor.current) cursor := by
  refine Outcome.eq_fail_of_ensures (ensures_stmtsStep.2
    ⟨fun hclose => ?_, fun _ => ⟨rfl, rfl⟩, fun _ hne => absurd heof hne⟩)
  rw [heof] at hclose
  cases hclose

theorem parametersStep_of_eof (heof : cursor.current.kind = .eof) (d : Descent σ) :
    parametersStep d cursor =
      .fail (unexpected "function parameters" .identifier cursor.peek) cursor := by
  refine Outcome.eq_fail_of_ensures (ensures_parametersStep.2
    ⟨fun hname => ?_, fun _ => ⟨rfl, rfl⟩⟩)
  rw [cursor.peek_of_eof heof, heof] at hname
  cases hname

theorem argumentsStep_of_eof (heof : cursor.current.kind = .eof) (d : Descent σ) :
    argumentsStep d cursor = .ok [] cursor := by
  refine Outcome.eq_ok_of_ensures (ensures_argumentsStep.2 ⟨fun hcomma => ?_, fun _ => ⟨rfl, rfl⟩⟩)
  rw [cursor.peek_of_eof heof, heof] at hcomma
  cases hcomma

/-- At the end, one unit settles the parts of rules. -/
theorem parts_of_eof (grammar : Grammar) (fuel fuel' : Nat) :
    (descent grammar fuel : Descent σ).BelowIn (fun place => place.current.kind = .eof)
      (descent grammar (fuel' + 1)) where
  advance cursor heof := by rwa [Cursor.advance_of_eof heof]
  expr floor cursor heof := by
    rcases expr_of_eof grammar heof with hstop | ⟨diagnostic, hfail⟩
    · refine ⟨.inl (hstop fuel floor), ?_⟩
      rw [hstop]
      trivial
    · exact belowIn_of_step (fun d => d.expr floor cursor) rfl (fun d => hfail d floor) trivial
  stmts cursor heof :=
    belowIn_of_step (fun d => d.stmts cursor) rfl (stmtsStep_of_eof heof) trivial
  parameters cursor heof :=
    belowIn_of_step (fun d => d.parameters cursor) rfl (parametersStep_of_eof heof) trivial
  arguments cursor heof :=
    belowIn_of_step (fun d => d.arguments cursor) rfl (argumentsStep_of_eof heof) heof

/-- A rule that makes a call of what stands in front of the end and stays there goes on
forever. -/
theorem chain_of_bareCall {power floor : BindingPower} (heof : cursor.current.kind = .eof)
    (hrule : grammar.continuation floor .eof = some (power, .bareCall)) (fuel : Nat)
    (left : Expr) : (descent grammar fuel).chain floor left cursor = .exhausted := by
  have hpeek : cursor.peek.kind = .eof := (cursor.peek_of_eof heof).symm ▸ heof
  induction fuel generalizing left with
  | zero => rfl
  | succ fuel ih =>
    refine Outcome.eq_exhausted_of_ensures (ensures_chainStep.2
      ⟨fun power' rule hrule' => ?_, fun hnone => ?_⟩)
    · rw [hpeek, hrule] at hrule'
      obtain ⟨rfl, rfl⟩ := Prod.mk.inj (Option.some.inj hrule')
      show ((descent grammar fuel).chain floor (.call cursor.advance.current left [])
        cursor.advance).Ensures True _ _
      rw [Cursor.advance_of_eof heof, ih]
      trivial
    · rw [hpeek, hrule] at hnone
      cases hnone

/-- Every other trailing rule reads an expression at the end, and there is none. -/
theorem trail_gives_of_eof {rule : TrailingRule} (heof : cursor.current.kind = .eof)
    (hrule : rule ≠ .bareCall) (fuel : Nat) (left : Expr) (power : BindingPower) :
    ((descent grammar fuel).trail left power rule cursor).Gives fun _ _ => False := by
  have hexpr : ∀ floor,
      ((descent grammar fuel).expr floor cursor.advance).Gives fun _ _ => False := by
    rw [Cursor.advance_of_eof heof]
    exact expr_gives_of_eof heof fuel
  cases rule with
  | binary => exact ensures_binary.2 (hexpr _)
  | binaryRight => exact ensures_binary.2 (hexpr _)
  | call =>
    refine ensures_call.2 (ensures_argumentList.2 ⟨fun hclose => ?_, fun _ =>
      (hexpr _).imp fun _ _ => False.elim⟩)
    rw [cursor.peek_of_eof heof, heof] at hclose
    cases hclose
  | bareCall => exact absurd rfl hrule

/-- At the end, two units settle how an expression goes on. -/
theorem chain_below_of_eof (grammar : Grammar) (heof : cursor.current.kind = .eof) (fuel : Nat)
    (henough : 2 ≤ fuel') (floor : BindingPower) (left : Expr) :
    ((descent grammar fuel).chain floor left cursor).Below
      ((descent grammar fuel').chain floor left cursor) := by
  have hpeek : cursor.peek.kind = .eof := (cursor.peek_of_eof heof).symm ▸ heof
  -- A bare call is the one rule that goes on with its first operand and no other.
  by_cases hbare : ∃ power, grammar.continuation floor .eof = some (power, .bareCall)
  · obtain ⟨power, hrule⟩ := hbare
    exact .inl (chain_of_bareCall heof hrule fuel left)
  · refine below_of_step (fun d => d.chain floor left cursor) rfl (by omega)
      fun less less' hless => ?_
    obtain ⟨fewer, rfl⟩ : ∃ fewer, less' = fewer + 1 := ⟨less' - 1, by omega⟩
    refine BelowIn.chainStep floor left (Q := fun _ => False) (fun power rule hrule => ?_)
      fun _ _ => False.elim
    have hne : rule ≠ .bareCall := fun h => hbare ⟨power, h ▸ hpeek ▸ hrule⟩
    rw [Cursor.advance_of_eof heof]
    exact ⟨((parts_of_eof grammar less fewer).trail left power rule heof).below,
      trail_gives_of_eof heof hne less left power⟩

theorem stmt_below_of_eof (grammar : Grammar) (heof : cursor.current.kind = .eof) (fuel : Nat)
    (henough : 2 ≤ fuel') :
    ((descent grammar fuel).stmt cursor).Below ((descent grammar fuel').stmt cursor) := by
  have hnext : cursor.advance.current.kind = .eof := by rwa [Cursor.advance_of_eof heof]
  refine below_of_step (fun d => d.stmt cursor) rfl (by omega) fun less less' hless => ?_
  obtain ⟨fewer, rfl⟩ : ∃ fewer, less' = fewer + 1 := ⟨less' - 1, by omega⟩
  have hparts := parts_of_eof (σ := σ) grammar less fewer
  exact hparts.stmtStep hnext fun floor => (hparts.expr floor cursor heof).below

/-! ## Readings go onward -/

/-- Two readings by one grammar, compared in every respect. -/
def Comparison.strict {τ : Type} [TokenSource τ] (grammar : Grammar) (cursor : Cursor σ)
    (cursor' : Cursor τ) : Comparison σ τ :=
  ⟨.none, grammar, grammar, cursor, cursor'⟩

namespace Comparison.Parallel

variable {τ : Type} [TokenSource τ] {p : Comparison σ τ} {d : Descent σ} {d' : Descent τ}

theorem exprEntry (h : p.Parallel d d') (entry : ExprEntry) :
    p.Mirrors 2 0 (Expr.erase p.erasure) (entry.action d p.start) (entry.action d' p.start') := by
  cases entry with
  | expr floor => exact h.expr floor 0 0 (Nat.zero_le _)
  | lead rule => exact @lead _ _ _ _ p 0 0 _ _ h rule (Nat.zero_le _)
  | trail left power rule =>
    exact @trail _ _ _ _ p 0 0 _ _ h left left power rule rfl (Nat.zero_le _)

theorem stmtEntry (h : p.Parallel d d') (entry : StmtEntry) :
    p.Mirrors 2 0 (Stmt.erase p.erasure) (entry.action d p.start) (entry.action d' p.start') := by
  cases entry with
  | stmt => exact h.stmt 0 0 (Nat.zero_le _)
  | statement rule => exact @statement _ _ _ _ p 0 0 _ _ h rule (Nat.zero_le _)

theorem blockEntry (h : p.Parallel d d') :
    p.Mirrors 1 0 (Block.erase p.erasure) (d.block p.start) (d'.block p.start') :=
  @block _ _ _ _ p 0 0 _ _ h (Nat.zero_le _)

end Comparison.Parallel

/-- The outcome leaves off some number of advances ahead of the cursor, whether it is a value or
a diagnostic. -/
def Cursor.Leads (cursor : Cursor σ) (outcome : Outcome (Cursor σ) α) : Prop :=
  outcome.Ensures True (fun _ moved => ∃ count, moved = cursor.skip count)
    fun _ moved => ∃ count, moved = cursor.skip count

theorem Comparison.Mirrors.leads {γ : Type} {reach seen : Nat} {keep : α → γ}
    {outcome outcome' : Outcome (Cursor σ) α}
    (h : (Comparison.strict grammar cursor cursor).Mirrors reach seen keep outcome outcome') :
    cursor.Leads outcome := by
  refine h.mono id (fun value moved hvalue => ?_) fun diagnostic moved hfailure => ?_
  · obtain ⟨place, _, hmoved, _⟩ := hvalue
    exact ⟨place, hmoved⟩
  · obtain ⟨place, _, hmoved, _⟩ := hfailure
    exact ⟨place, hmoved⟩

theorem Comparison.Mirrors.onward {γ : Type} {reach seen : Nat} {keep : α → γ}
    {outcome outcome' : Outcome (Cursor σ) α}
    (h : (Comparison.strict grammar cursor cursor).Mirrors reach seen keep outcome outcome') :
    outcome.Gives fun _ moved => moved.remaining ≤ cursor.remaining := by
  refine h.leads.mono id ?_ fun _ _ _ => trivial
  rintro value moved ⟨count, rfl⟩
  exact cursor.remaining_skip_le count

theorem parallel_self (grammar : Grammar) (cursor : Cursor σ) (fuel : Nat) :
    (Comparison.strict grammar cursor cursor).Parallel (descent grammar fuel)
      (descent grammar fuel) :=
  (Comparison.strict grammar cursor cursor).descent_parallel fuel

/-! ## Enough fuel -/

/-- Wherever no more than `count` is left, the entry points of `d'` do what those of `d` do,
unless these stop. -/
structure Descent.BelowUpTo (count : Nat) (d d' : Descent σ) : Prop where
  expr : ∀ floor cursor, cursor.remaining ≤ count →
    (d.expr floor cursor).Below (d'.expr floor cursor)
  chain : ∀ floor left cursor, cursor.remaining ≤ count →
    (d.chain floor left cursor).Below (d'.chain floor left cursor)
  stmt : ∀ cursor, cursor.remaining ≤ count → (d.stmt cursor).Below (d'.stmt cursor)
  stmts : ∀ cursor, cursor.remaining ≤ count → (d.stmts cursor).Below (d'.stmts cursor)
  parameters : ∀ cursor, cursor.remaining ≤ count →
    (d.parameters cursor).Below (d'.parameters cursor)
  arguments : ∀ cursor, cursor.remaining ≤ count →
    (d.arguments cursor).Below (d'.arguments cursor)

/-- No part that is read leads away from the end. -/
theorem Descent.BelowUpTo.parts {d' : Descent σ} (h : (descent grammar fuel).BelowUpTo count d') :
    (descent grammar fuel).BelowIn (fun place => place.remaining ≤ count) d' where
  advance cursor hle := Nat.le_trans cursor.remaining_advance_le
    (Nat.le_trans (Nat.sub_le _ _) hle)
  expr floor cursor hle := ⟨h.expr floor cursor hle,
    ((parallel_self grammar cursor fuel).expr floor 0 0 (Nat.zero_le _)).onward.imp
      fun _ _ hmoved => Nat.le_trans hmoved hle⟩
  stmts cursor hle := ⟨h.stmts cursor hle,
    ((parallel_self grammar cursor fuel).stmts 0 0 (Nat.zero_le _)).onward.imp
      fun _ _ hmoved => Nat.le_trans hmoved hle⟩
  parameters cursor hle := ⟨h.parameters cursor hle,
    ((parallel_self grammar cursor fuel).parameters 0 0 (Nat.zero_le _)).onward.imp
      fun _ _ hmoved => Nat.le_trans hmoved hle⟩
  arguments cursor hle := ⟨h.arguments cursor hle,
    ((parallel_self grammar cursor fuel).arguments 0 0 (Nat.zero_le _)).onward.imp
      fun _ _ hmoved => Nat.le_trans hmoved hle⟩

theorem belowUpTo_zero (grammar : Grammar) (fuel : Nat) (henough : 2 ≤ fuel') :
    (descent grammar fuel : Descent σ).BelowUpTo 0 (descent grammar fuel') := by
  have heof : ∀ cursor : Cursor σ, cursor.remaining ≤ 0 → cursor.current.kind = .eof := by
    intro cursor hle
    refine Decidable.byContradiction fun hne => ?_
    exact Nat.not_lt.2 hle (Cursor.remaining_pos hne)
  have hparts : (descent grammar fuel : Descent σ).BelowIn (fun place => place.current.kind = .eof)
      (descent grammar fuel') := by
    obtain ⟨less, rfl⟩ : ∃ less, fuel' = less + 1 := ⟨fuel' - 1, by omega⟩
    exact parts_of_eof grammar fuel less
  exact
    { expr := fun floor cursor hle => (hparts.expr floor cursor (heof cursor hle)).below
      chain := fun floor left cursor hle =>
        chain_below_of_eof grammar (heof cursor hle) fuel henough floor left
      stmt := fun cursor hle => stmt_below_of_eof grammar (heof cursor hle) fuel henough
      stmts := fun cursor hle => (hparts.stmts cursor (heof cursor hle)).below
      parameters := fun cursor hle => (hparts.parameters cursor (heof cursor hle)).below
      arguments := fun cursor hle => (hparts.arguments cursor (heof cursor hle)).below }

section OneMore

/-! ### One token more

The entry points need more fuel from one line to the next, since each may enter one of those
before it without an advance. -/

variable (hless : ∀ fuel fuel', 4 * count + 5 ≤ fuel' →
    (descent grammar fuel : Descent σ).BelowUpTo count (descent grammar fuel'))
  (hleft : cursor.remaining ≤ count + 1)
include hless hleft

theorem chain_below (henough : 4 * count + 6 ≤ fuel') (floor : BindingPower) (left : Expr) :
    ((descent grammar fuel).chain floor left cursor).Below
      ((descent grammar fuel').chain floor left cursor) := by
  have hnext := cursor.remaining_advance_le
  refine below_of_step (fun d => d.chain floor left cursor) rfl (by omega)
    fun less less' hmore => ?_
  have hbelow := hless less less' (by omega)
  exact BelowIn.chainStep floor left
    (fun power rule _ => hbelow.parts.trail left power rule (by omega))
    fun longer moved hmoved => hbelow.chain floor longer moved hmoved

theorem parameters_below (henough : 4 * count + 6 ≤ fuel') :
    ((descent grammar fuel).parameters cursor).Below
      ((descent grammar fuel').parameters cursor) := by
  have hnext := cursor.remaining_advance_le
  exact below_of_step (fun d => d.parameters cursor) rfl (by omega) fun less less' hmore =>
    (hless less less' (by omega)).parts.parametersStep (by omega)

theorem arguments_below (henough : 4 * count + 6 ≤ fuel') :
    ((descent grammar fuel).arguments cursor).Below
      ((descent grammar fuel').arguments cursor) := by
  have hnext := cursor.remaining_advance_le
  exact below_of_step (fun d => d.arguments cursor) rfl (by omega) fun less less' hmore =>
    (hless less less' (by omega)).parts.argumentsStep (by omega)

theorem expr_below (henough : 4 * count + 7 ≤ fuel') (floor : BindingPower) :
    ((descent grammar fuel).expr floor cursor).Below
      ((descent grammar fuel').expr floor cursor) := by
  have hnext := cursor.remaining_advance_le
  refine below_of_step (fun d => d.expr floor cursor) rfl (by omega) fun less less' hmore => ?_
  exact (hless less less' (by omega)).parts.exprStep floor (by omega)
    (fun rule => ((parallel_self grammar cursor less).exprEntry (.lead rule)).onward)
    fun left moved hmoved =>
      chain_below hless (Nat.le_trans hmoved hleft) (by omega) floor left

theorem stmt_below (henough : 4 * count + 8 ≤ fuel') :
    ((descent grammar fuel).stmt cursor).Below ((descent grammar fuel').stmt cursor) := by
  have hnext := cursor.remaining_advance_le
  refine below_of_step (fun d => d.stmt cursor) rfl (by omega) fun less less' hmore => ?_
  exact (hless less less' (by omega)).parts.stmtStep (by omega)
    fun floor => expr_below hless hleft (by omega) floor

theorem stmts_below (henough : 4 * count + 9 ≤ fuel') :
    ((descent grammar fuel).stmts cursor).Below ((descent grammar fuel').stmts cursor) := by
  refine below_of_step (fun d => d.stmts cursor) rfl (by omega) fun less less' hmore => ?_
  refine BelowIn.stmtsStep ⟨stmt_below hless hleft (by omega),
    ((parallel_self grammar cursor less).stmtEntry .stmt).onward⟩ fun moved hmoved => ?_
  have hnext := moved.remaining_advance_le
  exact (hless less less' (by omega)).stmts moved.advance (by omega)

end OneMore

/-- Where no more than `count` is left, four units for each token and five more are enough:
with any other fuel, the parser stops or does the same. -/
theorem descent_belowUpTo (grammar : Grammar) (count fuel fuel' : Nat)
    (henough : 4 * count + 5 ≤ fuel') :
    (descent grammar fuel : Descent σ).BelowUpTo count (descent grammar fuel') := by
  induction count generalizing fuel fuel' with
  | zero => exact belowUpTo_zero grammar fuel (by omega)
  | succ count ih =>
    exact
      { expr := fun floor _ hleft => expr_below ih hleft (by omega) floor
        chain := fun floor left _ hleft => chain_below ih hleft (by omega) floor left
        stmt := fun _ hleft => stmt_below ih hleft (by omega)
        stmts := fun _ hleft => stmts_below ih hleft (by omega)
        parameters := fun _ hleft => parameters_below ih hleft (by omega)
        arguments := fun _ hleft => arguments_below ih hleft (by omega) }

/-! ## Settled -/

theorem Outcome.Below.antisymm {τ : Type} {outcome outcome' : Outcome τ α}
    (h : outcome.Below outcome') (h' : outcome'.Below outcome) : outcome = outcome' := by
  rcases h with rfl | heq
  · rcases h' with rfl | heq'
    · rfl
    · exact heq'.symm
  · exact heq

/-- The fuel of a cursor is enough there. -/
theorem descent_belowUpTo_fuel (grammar : Grammar) (cursor : Cursor σ) (fuel : Nat) :
    (descent grammar fuel : Descent σ).BelowUpTo cursor.remaining
      (descent grammar cursor.fuel) :=
  descent_belowUpTo grammar cursor.remaining fuel cursor.fuel (by rw [cursor.fuel_eq]; omega)

theorem ExprEntry.settled (grammar : Grammar) (entry : ExprEntry) (cursor : Cursor σ)
    (h : cursor.fuel ≤ fuel) :
    entry.action (descent grammar fuel) cursor =
      entry.action (descent grammar cursor.fuel) cursor := by
  have hbelow := descent_belowUpTo_fuel grammar cursor fuel
  have habove := descent_mono (σ := σ) grammar h
  have hnext := cursor.remaining_advance_le
  cases entry with
  | expr floor =>
    exact (hbelow.expr floor cursor (Nat.le_refl _)).antisymm (habove.expr floor cursor)
  | lead rule =>
    exact (hbelow.parts.lead rule (by omega)).antisymm (habove.anywhere.lead rule trivial)
  | trail left power rule =>
    exact (hbelow.parts.trail left power rule (Nat.le_refl _)).below.antisymm
      (habove.anywhere.trail left power rule trivial).below

theorem StmtEntry.settled (grammar : Grammar) (entry : StmtEntry) (cursor : Cursor σ)
    (h : cursor.fuel ≤ fuel) :
    entry.action (descent grammar fuel) cursor =
      entry.action (descent grammar cursor.fuel) cursor := by
  have hbelow := descent_belowUpTo_fuel grammar cursor fuel
  have habove := descent_mono (σ := σ) grammar h
  have hnext := cursor.remaining_advance_le
  cases entry with
  | stmt => exact (hbelow.stmt cursor (Nat.le_refl _)).antisymm (habove.stmt cursor)
  | statement rule =>
    exact (hbelow.parts.statement rule (by omega) fun floor =>
        hbelow.expr floor cursor (Nat.le_refl _)).antisymm
      (habove.anywhere.statement rule trivial fun floor => habove.expr floor cursor)

theorem block_settled (grammar : Grammar) (cursor : Cursor σ) (h : cursor.fuel ≤ fuel) :
    (descent grammar fuel).block cursor = (descent grammar cursor.fuel).block cursor := by
  have hbelow := descent_belowUpTo_fuel grammar cursor fuel
  have hnext := cursor.remaining_advance_le
  exact (hbelow.parts.block (by omega)).below.antisymm
    ((descent_mono grammar h).anywhere.block trivial).below

end BraceLang
