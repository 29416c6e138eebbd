import BraceLang.Proofs.Parser.Fuel
import BraceLang.Proofs.Parser.Path
import BraceLang.Proofs.Tree.Erasure

/-!
# Two readings compared

Two cursors, in sources that may be of different types, each with a grammar: this
is a `Comparison`.  Its two readings run side by side as long as the tokens that
they look at are alike, and their grammars have the same rules for these tokens
(`Comparison.Agree`).  What is left aside in comparing tokens, an `Erasure` says.

`Comparison.Mirrors` ties two outcomes together.  The first reading has looked at
`seen` tokens, and if the cursors agree on these, then the second one ends in the
same way at the same place.  A value is given with at most one token in view
behind the last one that is read, and a diagnostic is given with none in view
behind the token that it blames (`Diagnostic.reach`).

`descent_parallel` says so of all entry points.  It is proved rule by rule, and
each rule step by step (`Mirrors.bind`).
-/

namespace BraceLang

variable {σ τ : Type} [TokenSource σ] [TokenSource τ]

/-! ## Tokens that are alike -/

/-- What is kept of a token that is read: its kind, the parts of it that go into a
tree or a diagnostic, and its value if it is an integer. -/
structure Erasure.View where
  kind : TokenKind
  token : Token
  first : Token
  text : String
  position : Position
  value : Option Int64

/-- What is kept of a token that is read. -/
def Erasure.view (E : Erasure) (token : Token) : Erasure.View where
  kind := token.kind
  token := E.token token
  first := E.first token
  text := E.text token.text
  position := E.position token.start
  value := if token.kind = .integer then Text.readInt64? token.text else Option.none

namespace Erasure

variable {E : Erasure} {token token' : Token}

theorem kind_eq (h : E.view token = E.view token') : token.kind = token'.kind :=
  congrArg View.kind h

theorem token_eq (h : E.view token = E.view token') : E.token token = E.token token' :=
  congrArg View.token h

theorem first_eq (h : E.view token = E.view token') : E.first token = E.first token' :=
  congrArg View.first h

theorem text_eq (h : E.view token = E.view token') : E.text token.text = E.text token'.text :=
  congrArg View.text h

theorem position_eq (h : E.view token = E.view token') :
    E.position token.start = E.position token'.start :=
  congrArg View.position h

theorem value_eq (h : E.view token = E.view token') (hkind : token.kind = .integer) :
    Text.readInt64? token.text = Text.readInt64? token'.text := by
  have hvalue := congrArg View.value h
  simp only [view] at hvalue
  rwa [if_pos hkind, if_pos ((kind_eq h).symm.trans hkind)] at hvalue

end Erasure

/-- Two grammars have the same rules for a kind. -/
structure Grammar.SameRules (grammar grammar' : Grammar) (kind : TokenKind) : Prop where
  leading : grammar.leading kind = grammar'.leading kind
  trailing : grammar.trailing kind = grammar'.trailing kind
  statement : grammar.statement kind = grammar'.statement kind

namespace Descent

/-- The expression that begins at `token` by a leading rule, if there is one. -/
def begin? (d : Descent σ) (floor : BindingPower) (token : Token) :
    Option LeadingRule → Action σ Expr
  | some rule => do
    let left ← d.lead rule
    d.chain floor left
  | none => Action.refuse (.noExpression token.kind token.text) token

/-- The expression that goes on at `next` by a trailing rule, if there is one that
binds stronger than the floor. -/
def goOn? (d : Descent σ) (floor : BindingPower) (left : Expr) (next : Token) :
    Option (BindingPower × TrailingRule) → Action σ Expr
  | some (power, rule) =>
    if next.kind ≠ .semicolon ∧ floor < power then do
      Action.advance
      let longer ← d.trail left power rule
      d.chain floor longer
    else pure left
  | none => pure left

/-- The statement of a rule, or an expression. -/
def statement? (d : Descent σ) : Option StatementRule → Action σ Stmt
  | some rule => d.statement rule
  | none => d.expression

theorem exprStep_eq (grammar : Grammar) (d : Descent σ) (floor : BindingPower)
    (cursor : Cursor σ) : exprStep grammar d floor cursor =
      d.begin? floor cursor.current (grammar.leading cursor.current.kind) cursor := by
  show (match grammar.leading cursor.current.kind with
    | some rule => _
    | none => _ : Action σ Expr) cursor = _
  cases grammar.leading cursor.current.kind <;> rfl

theorem chainStep_eq (grammar : Grammar) (d : Descent σ) (floor : BindingPower) (left : Expr)
    (cursor : Cursor σ) : chainStep grammar d floor left cursor =
      d.goOn? floor left cursor.peek (grammar.trailing cursor.peek.kind) cursor := by
  show (match grammar.trailing cursor.peek.kind with
    | some (power, rule) => _
    | none => _ : Action σ Expr) cursor = _
  cases grammar.trailing cursor.peek.kind <;> rfl

theorem stmtStep_eq (grammar : Grammar) (d : Descent σ) (cursor : Cursor σ) :
    stmtStep grammar d cursor = d.statement? (grammar.statement cursor.current.kind) cursor := by
  show (match grammar.statement cursor.current.kind with
    | some rule => _
    | none => _ : Action σ Stmt) cursor = _
  cases grammar.statement cursor.current.kind <;> rfl

end Descent

/-! ## Comparisons -/

/-- Two cursors from which to read, each with a grammar, and what is left aside in
comparing what is read. -/
structure Comparison (σ τ : Type) [TokenSource σ] [TokenSource τ] where
  erasure : Erasure
  grammar : Grammar
  grammar' : Grammar
  start : Cursor σ
  start' : Cursor τ

namespace Comparison

variable {p : Comparison σ τ} {α β γ δ : Type} {reach reach' seen seen' place : Nat}
  {keep : α → γ} {keep' : β → δ}

/-- The first tokens from both cursors on are alike, and have the same rules. -/
def Agree (p : Comparison σ τ) (count : Nat) : Prop :=
  ∀ i < count, p.erasure.view (p.start.skip i).current = p.erasure.view (p.start'.skip i).current ∧
    p.grammar.SameRules p.grammar' (p.start.skip i).current.kind

/-- The first outcome has looked at `seen` tokens or more, but not farther than
`reach` tokens from where its cursor stands.  If the cursors agree on these, the
second outcome is the same. -/
def Mirrors (p : Comparison σ τ) (reach seen : Nat) (keep : α → γ)
    (outcome : Outcome (Cursor σ) α) (outcome' : Outcome (Cursor τ) α) : Prop :=
  outcome.Ensures True
    (fun value moved => ∃ place count, moved = p.start.skip place ∧ seen ≤ count ∧
      count ≤ place + reach ∧ (p.Agree count → ∃ value',
        outcome' = .ok value' (p.start'.skip place) ∧ keep value = keep value'))
    (fun diagnostic moved => ∃ place count, moved = p.start.skip place ∧ seen ≤ count ∧
      count ≤ place + diagnostic.reach ∧ (p.Agree count → ∃ diagnostic',
        outcome' = .fail diagnostic' (p.start'.skip place) ∧
          diagnostic.erase p.erasure = diagnostic'.erase p.erasure))

theorem Agree.mono {count count' : Nat} (h : p.Agree count') (hle : count ≤ count') :
    p.Agree count :=
  fun i hi => h i (Nat.lt_of_lt_of_le hi hle)

namespace Mirrors

variable {outcome : Outcome (Cursor σ) α} {outcome' outcome'' : Outcome (Cursor τ) α}

theorem seen_mono (h : p.Mirrors reach seen' keep outcome outcome') (hle : seen ≤ seen') :
    p.Mirrors reach seen keep outcome outcome' := by
  refine h.mono id ?_ ?_
  · intro value moved hmirrored
    obtain ⟨place, count, hmoved, hseen, hcount, hagree⟩ := hmirrored
    exact ⟨place, count, hmoved, Nat.le_trans hle hseen, hcount, hagree⟩
  · intro diagnostic moved hmirrored
    obtain ⟨place, count, hmoved, hseen, hcount, hagree⟩ := hmirrored
    exact ⟨place, count, hmoved, Nat.le_trans hle hseen, hcount, hagree⟩

/-- Where the cursors do not agree on what was seen, nothing is said of the second
outcome. -/
theorem of_not_agree (h : p.Mirrors reach seen keep outcome outcome') (hnot : ¬ p.Agree seen) :
    p.Mirrors reach seen keep outcome outcome'' := by
  refine h.mono id ?_ ?_
  · intro value moved hmirrored
    obtain ⟨place, count, hmoved, hseen, hcount, _⟩ := hmirrored
    exact ⟨place, count, hmoved, hseen, hcount, fun hagree => absurd (hagree.mono hseen) hnot⟩
  · intro diagnostic moved hmirrored
    obtain ⟨place, count, hmoved, hseen, hcount, _⟩ := hmirrored
    exact ⟨place, count, hmoved, hseen, hcount, fun hagree => absurd (hagree.mono hseen) hnot⟩

/-- Actions in a row. -/
theorem bind {first : Action σ α} {first' : Action τ α} {rest : α → Action σ β}
    {rest' : α → Action τ β}
    (h : p.Mirrors reach seen keep (first (p.start.skip place)) (first' (p.start'.skip place)))
    (hrest : ∀ value value' place' seen', keep value = keep value' → seen ≤ seen' →
      seen' ≤ place' + reach → p.Mirrors reach' seen' keep' (rest value (p.start.skip place'))
        (rest' value' (p.start'.skip place'))) :
    p.Mirrors reach' seen keep' ((first >>= rest) (p.start.skip place))
      ((first' >>= rest') (p.start'.skip place)) := by
  rw [Action.bind_apply, Action.bind_apply]
  cases hfirst : first (p.start.skip place) with
  | ok value moved =>
    rw [hfirst] at h
    obtain ⟨place', seen', rfl, hseen, hcount, hagree⟩ := h
    by_cases hall : p.Agree seen'
    · obtain ⟨value', hfirst', hkeep⟩ := hagree hall
      rw [hfirst']
      exact (hrest value value' place' seen' hkeep hseen hcount).seen_mono hseen
    · -- The second reading may be anywhere, so only the first one counts.
      exact ((hrest value value place' seen' rfl hseen hcount).of_not_agree hall).seen_mono hseen
  | fail diagnostic moved =>
    rw [hfirst] at h
    obtain ⟨place', seen', hmoved, hseen, hcount, hagree⟩ := h
    refine ⟨place', seen', hmoved, hseen, hcount, fun hall => ?_⟩
    obtain ⟨diagnostic', hfirst', herase⟩ := hagree hall
    exact ⟨diagnostic', by rw [hfirst'], herase⟩
  | exhausted => trivial

/-- Actions that go on by a rule which was looked up.  Where the cursors agree, both
have found the same one. -/
theorem lookup {ι : Type} (action : Token → ι → Action σ α) (action' : Token → ι → Action τ α)
    (token token' : Token) {rule rule' : ι}
    (hagree : p.Agree seen → p.erasure.view token = p.erasure.view token' ∧ rule = rule')
    (h : ∀ token token' rule, p.erasure.view token = p.erasure.view token' →
      p.Mirrors reach seen keep (action token rule (p.start.skip place))
        (action' token' rule (p.start'.skip place))) :
    p.Mirrors reach seen keep (action token rule (p.start.skip place))
      (action' token' rule' (p.start'.skip place)) := by
  by_cases hall : p.Agree seen
  · obtain ⟨hview, rfl⟩ := hagree hall
    exact h token token' rule hview
  · exact (h token token rule rfl).of_not_agree hall

/-! ### Single steps -/

theorem pure {value value' : α} (hkeep : keep value = keep value') (hseen : seen ≤ place + reach) :
    p.Mirrors reach seen keep ((Pure.pure value : Action σ α) (p.start.skip place))
      ((Pure.pure value' : Action τ α) (p.start'.skip place)) :=
  ⟨place, seen, rfl, Nat.le_refl _, hseen, fun _ => ⟨value', rfl, hkeep⟩⟩

theorem current (hseen : seen ≤ place + 1) :
    p.Mirrors 1 seen p.erasure.view (Action.current (p.start.skip place))
      (Action.current (p.start'.skip place)) :=
  ⟨place, place + 1, rfl, hseen, Nat.le_refl _, fun hall =>
    ⟨_, rfl, (hall place (Nat.lt_succ_self place)).1⟩⟩

theorem peek (hseen : seen ≤ place + 2) :
    p.Mirrors 2 seen p.erasure.view (Action.peek (p.start.skip place))
      (Action.peek (p.start'.skip place)) :=
  ⟨place, place + 2, rfl, hseen, Nat.le_refl _, fun hall =>
    ⟨_, rfl, (hall (place + 1) (Nat.lt_succ_self _)).1⟩⟩

theorem advance (hseen : seen ≤ place + 2) :
    p.Mirrors 1 seen id (Action.advance (p.start.skip place))
      (Action.advance (p.start'.skip place)) :=
  ⟨place + 1, seen, rfl, Nat.le_refl _, hseen, fun _ => ⟨(), rfl, rfl⟩⟩

theorem refuse {cause cause' : Cause} {token token' : Token}
    (hcause : cause.erase p.erasure = cause'.erase p.erasure)
    (htoken : p.erasure.view token = p.erasure.view token')
    (hseen : seen ≤ place + Diagnostic.reach ⟨cause, token.start⟩) :
    p.Mirrors reach seen keep ((Action.refuse cause token : Action σ α) (p.start.skip place))
      ((Action.refuse cause' token' : Action τ α) (p.start'.skip place)) := by
  refine ⟨place, seen, rfl, Nat.le_refl _, hseen, fun _ => ⟨_, rfl, ?_⟩⟩
  rw [Diagnostic.erase, Diagnostic.erase, hcause, Erasure.position_eq htoken]

theorem expect (kind : TokenKind) (construct : String) (hseen : seen ≤ place + 2) :
    p.Mirrors 1 seen p.erasure.view (Action.expect kind construct (p.start.skip place))
      (Action.expect kind construct (p.start'.skip place)) := by
  have hview : p.Agree (place + 2) →
      p.erasure.view (p.start.skip place).peek = p.erasure.view (p.start'.skip place).peek :=
    fun hall => (hall (place + 1) (Nat.lt_succ_self _)).1
  unfold Action.expect
  by_cases hkind : (p.start.skip place).peek.kind = kind
  · rw [if_pos hkind]
    refine ⟨place + 1, place + 2, rfl, hseen, Nat.le_refl _, fun hall => ?_⟩
    rw [if_pos ((Erasure.kind_eq (hview hall)).symm.trans hkind)]
    exact ⟨_, rfl, hview hall⟩
  · rw [if_neg hkind]
    refine ⟨place, place + 2, rfl, hseen, Nat.le_refl _, fun hall => ?_⟩
    rw [if_neg (by rw [← Erasure.kind_eq (hview hall)]; exact hkind)]
    refine ⟨_, rfl, ?_⟩
    simp only [Diagnostic.erase, Cause.erase, Erasure.kind_eq (hview hall),
      Erasure.text_eq (hview hall)]
    exact congrArg (Diagnostic.mk _) (Erasure.position_eq (hview hall))

theorem skipOptional (kind : TokenKind) (hseen : seen ≤ place + 2) :
    p.Mirrors 2 seen id (Action.skipOptional kind (p.start.skip place))
      (Action.skipOptional kind (p.start'.skip place)) := by
  have hkindEq : p.Agree (place + 2) →
      (p.start.skip place).peek.kind = (p.start'.skip place).peek.kind :=
    fun hall => Erasure.kind_eq (hall (place + 1) (Nat.lt_succ_self _)).1
  unfold Action.skipOptional Cursor.skipOptional
  by_cases hkind : (p.start.skip place).peek.kind = kind
  · rw [if_pos hkind]
    refine ⟨place + 1, place + 2, rfl, hseen, Nat.le_succ _, fun hall => ?_⟩
    rw [if_pos ((hkindEq hall).symm.trans hkind)]
    exact ⟨(), rfl, rfl⟩
  · rw [if_neg hkind]
    refine ⟨place, place + 2, rfl, hseen, Nat.le_refl _, fun hall => ?_⟩
    rw [if_neg (by rw [← hkindEq hall]; exact hkind)]
    exact ⟨(), rfl, rfl⟩

end Mirrors

/-! ## Rules -/

/-- The entry points of `d` and `d'` mirror each other.  One that begins at a token
may be entered when the token before it has been looked at, and one that goes on
behind a token, when the next one has. -/
structure Parallel (p : Comparison σ τ) (d : Descent σ) (d' : Descent τ) : Prop where
  expr : ∀ (floor : BindingPower) (place seen : Nat), seen ≤ place + 1 →
    p.Mirrors 2 seen (Expr.erase p.erasure) (d.expr floor (p.start.skip place))
      (d'.expr floor (p.start'.skip place))
  chain : ∀ (floor : BindingPower) (left left' : Expr) (place seen : Nat),
    left.erase p.erasure = left'.erase p.erasure → seen ≤ place + 2 →
    p.Mirrors 2 seen (Expr.erase p.erasure) (d.chain floor left (p.start.skip place))
      (d'.chain floor left' (p.start'.skip place))
  stmt : ∀ place seen : Nat, seen ≤ place + 1 →
    p.Mirrors 2 seen (Stmt.erase p.erasure) (d.stmt (p.start.skip place))
      (d'.stmt (p.start'.skip place))
  stmts : ∀ place seen : Nat, seen ≤ place + 1 →
    p.Mirrors 1 seen (Stmt.eraseEach p.erasure) (d.stmts (p.start.skip place))
      (d'.stmts (p.start'.skip place))
  parameters : ∀ place seen : Nat, seen ≤ place + 2 →
    p.Mirrors 2 seen (List.map (Identifier.erase p.erasure)) (d.parameters (p.start.skip place))
      (d'.parameters (p.start'.skip place))
  arguments : ∀ place seen : Nat, seen ≤ place + 2 →
    p.Mirrors 2 seen (Expr.eraseEach p.erasure) (d.arguments (p.start.skip place))
      (d'.arguments (p.start'.skip place))

namespace Parallel

open Mirrors Descent

variable {d : Descent σ} {d' : Descent τ}

theorem literal (hseen : seen ≤ place + 1) :
    p.Mirrors 1 seen (Expr.erase p.erasure) (Descent.literal (p.start.skip place))
      (Descent.literal (p.start'.skip place)) := by
  refine bind (current hseen) fun token token' place seen htoken _ hseen => ?_
  have hkind := Erasure.kind_eq htoken
  have htokens := Erasure.token_eq htoken
  have htext := Erasure.text_eq htoken
  have hvalue := Erasure.value_eq htoken
  rw [← hkind]
  generalize token.kind = kind at hvalue
  cases kind with
  | identifier => exact pure (by simp only [Expr.erase, Identifier.erase, htokens, htext]) hseen
  | integer =>
    rw [← hvalue rfl]
    cases Text.readInt64? token.text with
    | some value => exact pure (by simp only [Expr.erase, htokens]) hseen
    | none => exact refuse (by simp only [Cause.erase, htext]) htoken hseen
  | string => exact pure (by simp only [Expr.erase, htokens, htext]) hseen
  | trueWord => exact pure (by simp only [Expr.erase, htokens]) hseen
  | falseWord => exact pure (by simp only [Expr.erase, htokens]) hseen
  | _ => exact refuse (by simp only [Cause.erase, htext]) htoken hseen

theorem operator (h : p.Parallel d d') (hseen : seen ≤ place + 1) :
    p.Mirrors 2 seen (Expr.erase p.erasure) (d.operator (p.start.skip place))
      (d'.operator (p.start'.skip place)) := by
  refine bind (current hseen) fun token token' place seen htoken _ hseen => ?_
  refine bind (advance (by omega)) fun _ _ place seen _ _ hseen => ?_
  refine bind (h.expr .unary place seen hseen)
    fun operand operand' place seen hoperand _ hseen => ?_
  refine pure ?_ hseen
  simp only [Expr.erase, Erasure.token_eq htoken, Erasure.text_eq htoken, hoperand]

theorem group (h : p.Parallel d d') (hseen : seen ≤ place + 1) :
    p.Mirrors 1 seen (Expr.erase p.erasure) (d.group (p.start.skip place))
      (d'.group (p.start'.skip place)) := by
  refine bind (advance (by omega)) fun _ _ place seen _ _ hseen => ?_
  refine bind (h.expr .default place seen hseen) fun inner inner' place seen hinner _ hseen => ?_
  exact bind (expect .closeParen _ hseen) fun _ _ place seen _ _ hseen => pure hinner hseen

theorem block (h : p.Parallel d d') (hseen : seen ≤ place + 1) :
    p.Mirrors 1 seen (Block.erase p.erasure) (d.block (p.start.skip place))
      (d'.block (p.start'.skip place)) := by
  refine bind (current hseen) fun token token' place seen htoken _ hseen => ?_
  refine bind (advance (by omega)) fun _ _ place seen _ _ hseen => ?_
  refine bind (h.stmts place seen hseen) fun body body' place seen hbody _ hseen => ?_
  refine pure ?_ hseen
  simp only [Block.erase, Erasure.token_eq htoken, hbody]

theorem alternative (h : p.Parallel d d') (hseen : seen ≤ place + 2) :
    p.Mirrors 2 seen (Option.map (Block.erase p.erasure)) (d.alternative (p.start.skip place))
      (d'.alternative (p.start'.skip place)) := by
  refine bind (peek hseen) fun next next' place seen hnext _ hseen => ?_
  rw [← Erasure.kind_eq hnext]
  split
  · refine bind (advance hseen) fun _ _ place seen _ _ hseen => ?_
    refine bind (expect .openCurly _ (by omega)) fun _ _ place seen _ _ hseen => ?_
    refine bind (h.block hseen) fun body body' place seen hbody _ hseen => ?_
    exact pure (by simp only [Option.map, hbody]) (by omega)
  · exact pure rfl hseen

theorem conditional (h : p.Parallel d d') (hseen : seen ≤ place + 1) :
    p.Mirrors 2 seen (Expr.erase p.erasure) (d.conditional (p.start.skip place))
      (d'.conditional (p.start'.skip place)) := by
  refine bind (current hseen) fun token token' place seen htoken _ hseen => ?_
  refine bind (advance (by omega)) fun _ _ place seen _ _ hseen => ?_
  refine bind (h.expr .default place seen hseen) fun test test' place seen htest _ hseen => ?_
  refine bind (expect .openCurly _ hseen) fun _ _ place seen _ _ hseen => ?_
  refine bind (h.block hseen) fun first first' place seen hfirst _ hseen => ?_
  refine bind (h.alternative (by omega)) fun other other' place seen hother _ hseen => ?_
  refine pure ?_ hseen
  cases other <;> cases other' <;> simp only [Option.map, Option.some.injEq, reduceCtorEq] at hother
  · simp only [Expr.erase, Erasure.token_eq htoken, htest, hfirst]
  · simp only [Expr.erase, Erasure.token_eq htoken, htest, hfirst, hother]

theorem parameterList (h : p.Parallel d d') (hseen : seen ≤ place + 2) :
    p.Mirrors 1 seen (List.map (Identifier.erase p.erasure))
      (d.parameterList (p.start.skip place)) (d'.parameterList (p.start'.skip place)) := by
  refine bind (peek hseen) fun next next' place seen hnext _ hseen => ?_
  rw [← Erasure.kind_eq hnext]
  split
  · exact bind (advance hseen) fun _ _ place seen _ _ hseen => pure rfl hseen
  · refine bind (h.parameters place seen hseen) fun names names' place seen hnames _ hseen => ?_
    exact bind (expect .closeParen _ hseen) fun _ _ place seen _ _ hseen => pure hnames hseen

theorem function (h : p.Parallel d d') (hseen : seen ≤ place + 1) :
    p.Mirrors 1 seen (Expr.erase p.erasure) (d.function (p.start.skip place))
      (d'.function (p.start'.skip place)) := by
  refine bind (current hseen) fun token token' place seen htoken _ hseen => ?_
  refine bind (expect .openParen _ (by omega)) fun _ _ place seen _ _ hseen => ?_
  refine bind (h.parameterList (by omega)) fun names names' place seen hnames _ hseen => ?_
  refine bind (expect .openCurly _ (by omega)) fun _ _ place seen _ _ hseen => ?_
  refine bind (h.block hseen) fun body body' place seen hbody _ hseen => ?_
  refine pure ?_ hseen
  simp only [Expr.erase, Erasure.token_eq htoken, hnames, hbody]

/-- A smaller reach is a stronger statement. -/
theorem reach_two {outcome : Outcome (Cursor σ) α} {outcome' : Outcome (Cursor τ) α}
    (h : p.Mirrors 1 seen keep outcome outcome') : p.Mirrors 2 seen keep outcome outcome' := by
  refine h.imp ?_
  intro value moved hmirrored
  obtain ⟨place, count, hmoved, hseen, hcount, hagree⟩ := hmirrored
  exact ⟨place, count, hmoved, hseen, by omega, hagree⟩

theorem lead (h : p.Parallel d d') (rule : LeadingRule) (hseen : seen ≤ place + 1) :
    p.Mirrors 2 seen (Expr.erase p.erasure) (d.lead rule (p.start.skip place))
      (d'.lead rule (p.start'.skip place)) := by
  cases rule with
  | literal => exact reach_two (literal hseen)
  | operator => exact h.operator hseen
  | group => exact reach_two (h.group hseen)
  | conditional => exact h.conditional hseen
  | function => exact reach_two (h.function hseen)

theorem binary (h : p.Parallel d d') {left left' : Expr} (floor : BindingPower)
    (hleft : left.erase p.erasure = left'.erase p.erasure) (hseen : seen ≤ place + 1) :
    p.Mirrors 2 seen (Expr.erase p.erasure) (d.binary left floor (p.start.skip place))
      (d'.binary left' floor (p.start'.skip place)) := by
  refine bind (current hseen) fun token token' place seen htoken _ hseen => ?_
  refine bind (advance (by omega)) fun _ _ place seen _ _ hseen => ?_
  refine bind (h.expr floor place seen hseen) fun right right' place seen hright _ hseen => ?_
  refine pure ?_ hseen
  simp only [Expr.erase, Erasure.token_eq htoken, Erasure.text_eq htoken, hleft, hright]

theorem argumentList (h : p.Parallel d d') (hseen : seen ≤ place + 2) :
    p.Mirrors 1 seen (Expr.eraseEach p.erasure) (d.argumentList (p.start.skip place))
      (d'.argumentList (p.start'.skip place)) := by
  refine bind (peek hseen) fun next next' place seen hnext _ hseen => ?_
  rw [← Erasure.kind_eq hnext]
  split
  · exact bind (advance hseen) fun _ _ place seen _ _ hseen => pure rfl hseen
  · refine bind (advance hseen) fun _ _ place seen _ _ hseen => ?_
    refine bind (h.expr .default place seen hseen) fun first first' place seen hfirst _ hseen => ?_
    refine bind (h.arguments place seen hseen) fun others others' place seen hothers _ hseen => ?_
    refine bind (expect .closeParen _ hseen) fun _ _ place seen _ _ hseen => ?_
    exact pure (by simp only [Expr.eraseEach, hfirst, hothers]) hseen

theorem trail (h : p.Parallel d d') {left left' : Expr} (power : BindingPower)
    (rule : TrailingRule) (hleft : left.erase p.erasure = left'.erase p.erasure)
    (hseen : seen ≤ place + 1) :
    p.Mirrors 2 seen (Expr.erase p.erasure) (d.trail left power rule (p.start.skip place))
      (d'.trail left' power rule (p.start'.skip place)) := by
  cases rule with
  | binary => exact h.binary power hleft hseen
  | binaryRight => exact h.binary power.pred hleft hseen
  | call =>
    refine bind (current hseen) fun token token' place seen htoken _ hseen => ?_
    refine bind (h.argumentList (by omega)) fun args args' place seen hargs _ hseen => ?_
    exact pure (by simp only [Expr.erase, Erasure.token_eq htoken, hleft, hargs]) (by omega)
  | bareCall =>
    refine bind (current hseen) fun token token' place seen htoken _ hseen => ?_
    exact pure (by simp only [Expr.erase, Erasure.token_eq htoken, hleft]) (by omega)

theorem exprStep (h : p.Parallel d d') (floor : BindingPower) (hseen : seen ≤ place + 1) :
    p.Mirrors 2 seen (Expr.erase p.erasure)
      (exprStep p.grammar d floor (p.start.skip place))
      (exprStep p.grammar' d' floor (p.start'.skip place)) := by
  rw [exprStep_eq, exprStep_eq]
  refine seen_mono (lookup (d.begin? floor) (d'.begin? floor) _ _ (fun hall => ?_)
    fun token token' rule htoken => ?_) hseen
  · obtain ⟨hview, hrules⟩ := hall place (Nat.lt_succ_self place)
    exact ⟨hview, by rw [hrules.leading, Erasure.kind_eq hview]⟩
  · cases rule with
    | some rule =>
      refine bind (h.lead rule (Nat.le_refl _)) fun left left' place seen hleft _ hseen => ?_
      exact h.chain floor left left' place seen hleft hseen
    | none =>
      refine refuse ?_ htoken (Nat.le_refl _)
      simp only [Cause.erase, Erasure.kind_eq htoken, Erasure.text_eq htoken]

theorem chainStep (h : p.Parallel d d') (floor : BindingPower) {left left' : Expr}
    (hleft : left.erase p.erasure = left'.erase p.erasure) (hseen : seen ≤ place + 2) :
    p.Mirrors 2 seen (Expr.erase p.erasure)
      (chainStep p.grammar d floor left (p.start.skip place))
      (chainStep p.grammar' d' floor left' (p.start'.skip place)) := by
  rw [chainStep_eq, chainStep_eq]
  refine seen_mono (lookup (d.goOn? floor left) (d'.goOn? floor left') _ _ (fun hall => ?_)
    fun next next' entry hnext => ?_) hseen
  · obtain ⟨hview, hrules⟩ := hall (place + 1) (Nat.lt_succ_self _)
    refine ⟨hview, ?_⟩
    rw [show (p.start.skip place).peek = (p.start.skip (place + 1)).current from rfl,
      hrules.trailing, Erasure.kind_eq hview]
    rfl
  · cases entry with
    | some entry =>
      obtain ⟨power, rule⟩ := entry
      simp only [goOn?, ← Erasure.kind_eq hnext]
      split
      · refine bind (advance (Nat.le_refl _)) fun _ _ place seen _ _ hseen => ?_
        refine bind (h.trail power rule hleft hseen)
          fun longer longer' place seen hlonger _ hseen => ?_
        exact h.chain floor longer longer' place seen hlonger hseen
      · exact pure hleft (Nat.le_refl _)
    | none => exact pure hleft (Nat.le_refl _)

theorem parametersStep (h : p.Parallel d d') (hseen : seen ≤ place + 2) :
    p.Mirrors 2 seen (List.map (Identifier.erase p.erasure))
      (parametersStep d (p.start.skip place)) (parametersStep d' (p.start'.skip place)) := by
  refine bind (expect .identifier _ hseen) fun token token' place seen htoken _ hseen => ?_
  have hname : Identifier.erase p.erasure ⟨token, token.text⟩ =
      Identifier.erase p.erasure ⟨token', token'.text⟩ := by
    simp only [Identifier.erase, Erasure.token_eq htoken, Erasure.text_eq htoken]
  refine bind (peek (by omega)) fun next next' place seen hnext _ hseen => ?_
  rw [← Erasure.kind_eq hnext]
  split
  · refine bind (advance hseen) fun _ _ place seen _ _ hseen => ?_
    refine bind (h.parameters place seen (by omega))
      fun others others' place seen hothers _ hseen => ?_
    exact pure (by simp only [List.map_cons, hname, hothers]) hseen
  · exact pure (by simp only [List.map_cons, hname, List.map_nil]) hseen

theorem argumentsStep (h : p.Parallel d d') (hseen : seen ≤ place + 2) :
    p.Mirrors 2 seen (Expr.eraseEach p.erasure) (argumentsStep d (p.start.skip place))
      (argumentsStep d' (p.start'.skip place)) := by
  refine bind (peek hseen) fun next next' place seen hnext _ hseen => ?_
  rw [← Erasure.kind_eq hnext]
  split
  · refine bind (advance hseen) fun _ _ place seen _ _ hseen => ?_
    refine bind (advance (by omega)) fun _ _ place seen _ _ hseen => ?_
    refine bind (h.expr .default place seen hseen) fun first first' place seen hfirst _ hseen => ?_
    refine bind (h.arguments place seen hseen) fun others others' place seen hothers _ hseen => ?_
    exact pure (by simp only [Expr.eraseEach, hfirst, hothers]) hseen
  · exact pure rfl hseen

/-! ### Statements -/

theorem binding (h : p.Parallel d d') (hseen : seen ≤ place + 1) :
    p.Mirrors 2 seen (Stmt.erase p.erasure) (d.binding (p.start.skip place))
      (d'.binding (p.start'.skip place)) := by
  refine bind (current hseen) fun token token' place seen htoken _ hseen => ?_
  refine bind (expect .identifier _ (by omega)) fun name name' place seen hname _ hseen => ?_
  refine bind (expect .assignment _ (by omega)) fun _ _ place seen _ _ hseen => ?_
  refine bind (advance (by omega)) fun _ _ place seen _ _ hseen => ?_
  refine bind (h.expr .default place seen hseen) fun value value' place seen hvalue _ hseen => ?_
  refine bind (skipOptional .semicolon hseen) fun _ _ place seen _ _ hseen => ?_
  refine pure ?_ hseen
  simp only [Stmt.erase, Identifier.erase, Erasure.token_eq htoken, Erasure.token_eq hname,
    Erasure.text_eq hname, hvalue]

theorem resultValue (h : p.Parallel d d') (hseen : seen ≤ place + 2) :
    p.Mirrors 2 seen (Option.map (Expr.erase p.erasure)) (d.resultValue (p.start.skip place))
      (d'.resultValue (p.start'.skip place)) := by
  refine bind (peek hseen) fun next next' place seen hnext _ hseen => ?_
  rw [← Erasure.kind_eq hnext]
  split
  · exact pure rfl hseen
  · refine bind (advance hseen) fun _ _ place seen _ _ hseen => ?_
    refine bind (h.expr .default place seen hseen) fun value value' place seen hvalue _ hseen => ?_
    exact pure (by simp only [Option.map, hvalue]) hseen

theorem result (h : p.Parallel d d') (hseen : seen ≤ place + 1) :
    p.Mirrors 2 seen (Stmt.erase p.erasure) (d.result (p.start.skip place))
      (d'.result (p.start'.skip place)) := by
  refine bind (current hseen) fun token token' place seen htoken _ hseen => ?_
  refine bind (h.resultValue (by omega)) fun value value' place seen hvalue _ hseen => ?_
  refine bind (skipOptional .semicolon hseen) fun _ _ place seen _ _ hseen => ?_
  refine pure ?_ hseen
  cases value <;> cases value' <;> simp only [Option.map, Option.some.injEq, reduceCtorEq] at hvalue
  · simp only [Stmt.erase, Erasure.token_eq htoken]
  · simp only [Stmt.erase, Erasure.token_eq htoken, hvalue]

theorem expression (h : p.Parallel d d') (hseen : seen ≤ place + 1) :
    p.Mirrors 2 seen (Stmt.erase p.erasure) (d.expression (p.start.skip place))
      (d'.expression (p.start'.skip place)) := by
  refine bind (current hseen) fun token token' place seen htoken _ hseen => ?_
  refine bind (h.expr .default place seen hseen) fun value value' place seen hvalue _ hseen => ?_
  refine bind (skipOptional .semicolon hseen) fun _ _ place seen _ _ hseen => ?_
  exact pure (by simp only [Stmt.erase, Erasure.first_eq htoken, hvalue]) hseen

theorem strictResult (h : p.Parallel d d') (hseen : seen ≤ place + 1) :
    p.Mirrors 2 seen (Stmt.erase p.erasure) (d.strictResult (p.start.skip place))
      (d'.strictResult (p.start'.skip place)) := by
  refine bind (current hseen) fun token token' place seen htoken _ hseen => ?_
  refine bind (advance (by omega)) fun _ _ place seen _ _ hseen => ?_
  refine bind (h.expr .default place seen hseen) fun value value' place seen hvalue _ hseen => ?_
  refine bind (skipOptional .semicolon hseen) fun _ _ place seen _ _ hseen => ?_
  exact pure (by simp only [Stmt.erase, Erasure.token_eq htoken, hvalue]) hseen

theorem bareBlock (h : p.Parallel d d') (hseen : seen ≤ place + 1) :
    p.Mirrors 2 seen (Stmt.erase p.erasure) (d.bareBlock (p.start.skip place))
      (d'.bareBlock (p.start'.skip place)) := by
  refine bind (current hseen) fun token token' place seen htoken _ hseen => ?_
  refine bind (h.block hseen) fun body body' place seen hbody _ hseen => ?_
  refine bind (skipOptional .semicolon (by omega)) fun _ _ place seen _ _ hseen => ?_
  refine pure ?_ hseen
  simp only [Stmt.erase, Expr.erase, Erasure.first_eq htoken, Erasure.token_eq htoken, hbody,
    List.map_nil]

theorem statement (h : p.Parallel d d') (rule : StatementRule) (hseen : seen ≤ place + 1) :
    p.Mirrors 2 seen (Stmt.erase p.erasure) (d.statement rule (p.start.skip place))
      (d'.statement rule (p.start'.skip place)) := by
  cases rule with
  | binding => exact h.binding hseen
  | result => exact h.result hseen
  | expression => exact h.expression hseen
  | strictResult => exact h.strictResult hseen
  | bareBlock => exact h.bareBlock hseen

theorem stmtStep (h : p.Parallel d d') (hseen : seen ≤ place + 1) :
    p.Mirrors 2 seen (Stmt.erase p.erasure) (stmtStep p.grammar d (p.start.skip place))
      (stmtStep p.grammar' d' (p.start'.skip place)) := by
  rw [stmtStep_eq, stmtStep_eq]
  refine seen_mono (lookup (fun _ => d.statement?) (fun _ => d'.statement?)
    (p.start.skip place).current (p.start'.skip place).current (fun hall => ?_)
    fun token token' rule htoken => ?_) hseen
  · obtain ⟨hview, hrules⟩ := hall place (Nat.lt_succ_self place)
    exact ⟨hview, by rw [hrules.statement, Erasure.kind_eq hview]⟩
  · cases rule with
    | some rule => exact h.statement rule (Nat.le_refl _)
    | none => exact h.expression (Nat.le_refl _)

theorem stmtsStep (h : p.Parallel d d') (hseen : seen ≤ place + 1) :
    p.Mirrors 1 seen (Stmt.eraseEach p.erasure) (stmtsStep d (p.start.skip place))
      (stmtsStep d' (p.start'.skip place)) := by
  refine bind (current hseen) fun token token' place seen htoken _ hseen => ?_
  rw [← Erasure.kind_eq htoken]
  split
  · exact pure rfl hseen
  split
  · refine refuse ?_ htoken (Nat.le_succ_of_le hseen)
    simp only [Cause.erase, Erasure.text_eq htoken]
  · refine bind (h.stmt place seen hseen) fun first first' place seen hfirst _ hseen => ?_
    refine bind (advance hseen) fun _ _ place seen _ _ hseen => ?_
    refine bind (h.stmts place seen hseen) fun others others' place seen hothers _ hseen => ?_
    exact pure (by simp only [Stmt.eraseEach, hfirst, hothers]) hseen

theorem step (h : p.Parallel d d') :
    p.Parallel (Descent.step p.grammar d) (Descent.step p.grammar' d') where
  expr floor _ _ hseen := h.exprStep floor hseen
  chain floor _ _ _ _ hleft hseen := h.chainStep floor hleft hseen
  stmt _ _ hseen := h.stmtStep hseen
  stmts _ _ hseen := h.stmtsStep hseen
  parameters _ _ hseen := h.parametersStep hseen
  arguments _ _ hseen := h.argumentsStep hseen

end Parallel

/-- The entry points of both grammars mirror each other. -/
theorem descent_parallel (p : Comparison σ τ) (fuel : Nat) :
    p.Parallel (descent p.grammar fuel) (descent p.grammar' fuel) := by
  induction fuel with
  | zero => constructor <;> intros <;> trivial
  | succ fuel ih =>
    rw [descent_succ, descent_succ]
    exact ih.step

end Comparison

end BraceLang
