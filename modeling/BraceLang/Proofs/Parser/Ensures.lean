import BraceLang.Parser.Descent

/-!
# What an action ensures

`Outcome.Ensures stopped ok bad` says of an outcome that it satisfies `ok` where
it is a value, `bad` where it is a diagnostic, and `stopped` where the action was
stopped.  With `stopped := True` this is a statement about the runs that end, and
with `stopped := False` it also says that the run ends.

There is one equation for each step of an action (`ensures_bind`,
`ensures_expect` and so on).  They turn a statement about a rule of the parser
into one about its parts, in the order in which the rule runs them.
`Outcome.Ensures.mono` then brings in what is known of a part.
-/

namespace BraceLang

namespace Outcome

variable {σ τ α β : Type}

/-- The outcome satisfies `ok` or `bad`, whichever it is, and `stopped` if it is
neither. -/
def Ensures (outcome : Outcome σ α) (stopped : Prop) (ok : α → σ → Prop)
    (bad : Diagnostic → σ → Prop) : Prop :=
  match outcome with
  | .ok value state => ok value state
  | .fail diagnostic state => bad diagnostic state
  | .exhausted => stopped

@[simp] theorem ensures_ok {stopped : Prop} {ok : α → σ → Prop}
    {bad : Diagnostic → σ → Prop} (value : α) (state : σ) :
    (Outcome.ok value state).Ensures stopped ok bad ↔ ok value state := Iff.rfl

@[simp] theorem ensures_fail {stopped : Prop} {ok : α → σ → Prop}
    {bad : Diagnostic → σ → Prop} (diagnostic : Diagnostic) (state : σ) :
    (Outcome.fail diagnostic state : Outcome σ α).Ensures stopped ok bad ↔
      bad diagnostic state := Iff.rfl

@[simp] theorem ensures_exhausted {stopped : Prop} {ok : α → σ → Prop}
    {bad : Diagnostic → σ → Prop} :
    (Outcome.exhausted : Outcome σ α).Ensures stopped ok bad ↔ stopped := Iff.rfl

theorem ensures_mapState {stopped : Prop} {ok : α → τ → Prop} {bad : Diagnostic → τ → Prop}
    (f : σ → τ) (outcome : Outcome σ α) :
    (outcome.mapState f).Ensures stopped ok bad ↔
      outcome.Ensures stopped (fun value state => ok value (f state))
        fun diagnostic state => bad diagnostic (f state) := by
  cases outcome <;> rfl

theorem ensures_map {stopped : Prop} {ok : β → σ → Prop} {bad : Diagnostic → σ → Prop}
    (f : α → β) (outcome : Outcome σ α) :
    (outcome.map f).Ensures stopped ok bad ↔
      outcome.Ensures stopped (fun value state => ok (f value) state) bad := by
  cases outcome <;> rfl

theorem Ensures.mono {outcome : Outcome σ α} {stopped stopped' : Prop}
    {ok ok' : α → σ → Prop} {bad bad' : Diagnostic → σ → Prop}
    (h : outcome.Ensures stopped ok bad) (hstopped : stopped → stopped')
    (hok : ∀ value state, ok value state → ok' value state)
    (hbad : ∀ diagnostic state, bad diagnostic state → bad' diagnostic state) :
    outcome.Ensures stopped' ok' bad' := by
  cases outcome with
  | ok value state => exact hok value state h
  | fail diagnostic state => exact hbad diagnostic state h
  | exhausted => exact hstopped h

/-- Weaker demands on the value alone. -/
theorem Ensures.imp {outcome : Outcome σ α} {stopped : Prop} {ok ok' : α → σ → Prop}
    {bad : Diagnostic → σ → Prop} (h : outcome.Ensures stopped ok bad)
    (hok : ∀ value state, ok value state → ok' value state) :
    outcome.Ensures stopped ok' bad :=
  h.mono id hok fun _ _ => id

/-- What an outcome ensures if it is no stop, and that it is none. -/
theorem Ensures.of_ne_exhausted {outcome : Outcome σ α} {stopped : Prop} {ok : α → σ → Prop}
    {bad : Diagnostic → σ → Prop} (h : outcome.Ensures stopped ok bad)
    (hne : outcome ≠ .exhausted) : outcome.Ensures False ok bad := by
  cases outcome with
  | ok value state => exact h
  | fail diagnostic state => exact h
  | exhausted => exact absurd rfl hne

/-- Every value of the outcome satisfies `ok`. -/
abbrev Gives (outcome : Outcome σ α) (ok : α → σ → Prop) : Prop :=
  outcome.Ensures True ok fun _ _ => True

/-- Every diagnostic of the outcome satisfies `bad`. -/
abbrev Refuses (outcome : Outcome σ α) (bad : Diagnostic → σ → Prop) : Prop :=
  outcome.Ensures True (fun _ _ => True) bad

/-- What is known of the values and of the diagnostics, brought in at once. -/
theorem Gives.andThen {outcome : Outcome σ α} {ok ok' : α → σ → Prop}
    {bad bad' : Diagnostic → σ → Prop} (h : outcome.Gives ok) (h' : outcome.Refuses bad)
    (hok : ∀ value state, ok value state → ok' value state)
    (hbad : ∀ diagnostic state, bad diagnostic state → bad' diagnostic state) :
    outcome.Ensures True ok' bad' := by
  cases outcome with
  | ok value state => exact hok value state h
  | fail diagnostic state => exact hbad diagnostic state h'
  | exhausted => trivial

/-- An outcome that ensures a single value and a single state is that value in that
state. -/
theorem eq_ok_of_ensures {outcome : Outcome σ α} {value : α} {state : σ}
    (h : outcome.Ensures False (fun value' state' => value' = value ∧ state' = state)
      fun _ _ => False) : outcome = .ok value state := by
  cases outcome with
  | ok value' state' =>
    obtain ⟨rfl, rfl⟩ := h
    rfl
  | fail diagnostic state' => exact h.elim
  | exhausted => exact h.elim

/-- An outcome that ensures a single diagnostic and a single state is that diagnostic in
that state. -/
theorem eq_fail_of_ensures {outcome : Outcome σ α} {diagnostic : Diagnostic} {state : σ}
    (h : outcome.Ensures False (fun _ _ => False)
      fun diagnostic' state' => diagnostic' = diagnostic ∧ state' = state) :
    outcome = .fail diagnostic state := by
  cases outcome with
  | ok value state' => exact h.elim
  | fail diagnostic' state' =>
    obtain ⟨rfl, rfl⟩ := h
    rfl
  | exhausted => exact h.elim

/-- An outcome that ensures neither a value nor a diagnostic is a stop. -/
theorem eq_exhausted_of_ensures {outcome : Outcome σ α}
    (h : outcome.Ensures True (fun _ _ => False) fun _ _ => False) : outcome = .exhausted := by
  cases outcome with
  | ok value state => exact h.elim
  | fail diagnostic state => exact h.elim
  | exhausted => rfl

/-- Outcomes are equal if the one ensures whatever the other does. -/
theorem eq_of_ensures {outcome outcome' : Outcome σ α}
    (h : ∀ (stopped : Prop) (ok : α → σ → Prop) (bad : Diagnostic → σ → Prop),
      outcome'.Ensures stopped ok bad → outcome.Ensures stopped ok bad) : outcome = outcome' := by
  have hself := h (outcome' = .exhausted) (fun value state => outcome' = .ok value state)
    (fun diagnostic state => outcome' = .fail diagnostic state) (by cases outcome' <;> rfl)
  cases outcome with
  | ok value state => exact Eq.symm hself
  | fail diagnostic state => exact Eq.symm hself
  | exhausted => exact Eq.symm hself

end Outcome

namespace Action

variable {σ α β : Type} [TokenSource σ] {stopped : Prop}
  {bad : Diagnostic → Cursor σ → Prop}

/-! ## Equations -/

theorem ensures_bind (first : Action σ α) (rest : α → Action σ β) (cursor : Cursor σ)
    {ok : β → Cursor σ → Prop} :
    ((first >>= rest) cursor).Ensures stopped ok bad ↔
      (first cursor).Ensures stopped
        (fun value moved => (rest value moved).Ensures stopped ok bad) bad := by
  rw [bind_apply]
  cases first cursor <;> rfl

theorem ensures_pure (value : α) (cursor : Cursor σ) {ok : α → Cursor σ → Prop} :
    ((pure value : Action σ α) cursor).Ensures stopped ok bad ↔ ok value cursor := Iff.rfl

theorem ensures_current (cursor : Cursor σ) {ok : Token → Cursor σ → Prop} :
    (current cursor).Ensures stopped ok bad ↔ ok cursor.current cursor := Iff.rfl

theorem ensures_peek (cursor : Cursor σ) {ok : Token → Cursor σ → Prop} :
    (peek cursor).Ensures stopped ok bad ↔ ok cursor.peek cursor := Iff.rfl

theorem ensures_refuse (cause : Cause) (blamed : Token) (cursor : Cursor σ)
    {ok : α → Cursor σ → Prop} :
    ((refuse cause blamed : Action σ α) cursor).Ensures stopped ok bad ↔
      bad ⟨cause, blamed.start⟩ cursor := Iff.rfl

theorem ensures_advance (cursor : Cursor σ) {ok : Unit → Cursor σ → Prop} :
    (advance cursor).Ensures stopped ok bad ↔ ok () cursor.advance := Iff.rfl

/-- The diagnostic for a token that is not of the kind a construct goes on
with. -/
def unexpected (construct : String) (expected : TokenKind) (found : Token) : Diagnostic :=
  ⟨.expectedToken construct expected found.kind found.text, found.start⟩

theorem ensures_expect (kind : TokenKind) (construct : String) (cursor : Cursor σ)
    {ok : Token → Cursor σ → Prop} :
    (expect kind construct cursor).Ensures stopped ok bad ↔
      (cursor.peek.kind = kind → ok cursor.peek cursor.advance) ∧
        (cursor.peek.kind ≠ kind → bad (unexpected construct kind cursor.peek) cursor) := by
  unfold expect
  by_cases h : cursor.peek.kind = kind <;> simp [h, unexpected]

theorem ensures_skipOptional (kind : TokenKind) (cursor : Cursor σ)
    {ok : Unit → Cursor σ → Prop} :
    (skipOptional kind cursor).Ensures stopped ok bad ↔
      ok () (cursor.skipOptional kind) := Iff.rfl

end Action

/-- How many tokens from the cursor on a failed action has looked at, no more. -/
def Diagnostic.reach (diagnostic : Diagnostic) : Nat :=
  match diagnostic.cause with
  | .expectedToken .. => 2
  | _ => 1

theorem Diagnostic.reach_pos (diagnostic : Diagnostic) : 0 < diagnostic.reach := by
  unfold Diagnostic.reach
  split <;> decide

theorem Diagnostic.reach_le (diagnostic : Diagnostic) : diagnostic.reach ≤ 2 := by
  unfold Diagnostic.reach
  split <;> decide

end BraceLang
