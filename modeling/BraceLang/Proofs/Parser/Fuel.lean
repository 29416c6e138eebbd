import BraceLang.Parser.Recovery
import BraceLang.Proofs.Parser.Rules

/-!
# The fuel of the parser

The entry points of `descent grammar fuel` stop when they are nested deeper than
`fuel`.  This module takes the fuel away.

* `descent_suffices`: with the fuel that `Descent.Suffices` asks for, no entry
  point stops, and none ends farther from the end of the source than it began.
  A rule reaches at most four entry points between two advances, so four units
  for each token that is left are enough.
* `descent_mono`: more fuel changes no outcome but a stop.
* `reader` is the parser with as much fuel as the cursor needs, and
  `reader_eq_step` unfolds it without any: it is a fixed point of
  `Descent.step`.

A grammar in which an expression can begin or go on with an end token has no such
bound, since an advance from the end gets nowhere.  `Grammar.StopsAtEnd` rules
this out.
-/

namespace BraceLang

/-- No expression begins or goes on with an end token. -/
structure Grammar.StopsAtEnd (grammar : Grammar) : Prop where
  leading_eof : grammar.leading .eof = none
  trailing_eof : grammar.trailing .eof = none

theorem Grammar.standard_stopsAtEnd : Grammar.standard.StopsAtEnd := ⟨rfl, rfl⟩

/-- A token that goes on with an expression is no end token. -/
theorem Grammar.StopsAtEnd.kind_ne_eof {grammar : Grammar} (hg : grammar.StopsAtEnd)
    {floor power : BindingPower} {rule : TrailingRule} {kind : TokenKind}
    (h : grammar.continuation floor kind = some (power, rule)) : kind ≠ .eof := by
  rintro rfl
  have htrailing := (Grammar.continuation_eq_some.1 h).1
  rw [hg.trailing_eof] at htrailing
  cases htrailing

open BraceLang.Action Descent

variable {σ : Type} [TokenSource σ] {α : Type}

/-! ## Enough fuel -/

/-- The outcome is no stop, and its cursor is no farther from the end than
`cursor`. -/
def Cursor.Answered (cursor : Cursor σ) (outcome : Outcome (Cursor σ) α) : Prop :=
  outcome.Ensures False (fun _ moved => moved.remaining ≤ cursor.remaining)
    fun _ moved => moved.remaining ≤ cursor.remaining

/-- An answer of a part is one of the whole if the rest of the rule answers from
the place that the part has reached. -/
theorem Cursor.Answered.andThen {cursor part : Cursor σ} {outcome : Outcome (Cursor σ) α}
    {ok : α → Cursor σ → Prop} (h : part.Answered outcome)
    (hpart : part.remaining ≤ cursor.remaining)
    (hok : ∀ value moved, moved.remaining ≤ part.remaining → ok value moved) :
    outcome.Ensures False ok fun _ moved => moved.remaining ≤ cursor.remaining :=
  h.mono id hok fun _ _ hmoved => Nat.le_trans hmoved hpart

theorem Cursor.remaining_skipOptional_le (kind : TokenKind) (cursor : Cursor σ) :
    (cursor.skipOptional kind).remaining ≤ cursor.remaining := by
  unfold Cursor.skipOptional
  split
  · exact Nat.le_trans cursor.remaining_advance_le (Nat.sub_le _ _)
  · exact Nat.le_refl _

/-- The entry points of `d` answer wherever `fuel` is large enough for what is
left of the source. -/
structure Descent.Suffices (d : Descent σ) (fuel : Nat) : Prop where
  expr : ∀ (floor : BindingPower) (cursor : Cursor σ), 4 * cursor.remaining + 2 ≤ fuel →
    cursor.Answered (d.expr floor cursor)
  chain : ∀ (floor : BindingPower) (left : Expr) (cursor : Cursor σ),
    4 * cursor.remaining + 1 ≤ fuel → cursor.Answered (d.chain floor left cursor)
  stmt : ∀ cursor : Cursor σ, 4 * cursor.remaining + 3 ≤ fuel →
    cursor.Answered (d.stmt cursor)
  stmts : ∀ cursor : Cursor σ, 0 < fuel →
    (cursor.current.kind ≠ .eof → 4 * cursor.remaining + 4 ≤ fuel) →
    cursor.Answered (d.stmts cursor)
  parameters : ∀ cursor : Cursor σ, 4 * cursor.remaining + 1 ≤ fuel →
    cursor.Answered (d.parameters cursor)
  arguments : ∀ cursor : Cursor σ, 4 * cursor.remaining + 1 ≤ fuel →
    cursor.Answered (d.arguments cursor)

namespace Descent.Suffices

variable {d : Descent σ} {fuel : Nat} {cursor : Cursor σ}

/-! ### Leading rules -/

theorem operator (hd : d.Suffices fuel) (htwo : 2 ≤ fuel)
    (hfuel : 4 * cursor.remaining ≤ fuel) : cursor.Answered (d.operator cursor) := by
  rw [Cursor.Answered, ensures_operator]
  have hadvance := cursor.remaining_advance_le
  refine (hd.expr .unary cursor.advance (by omega)).andThen (by omega)
    fun operand moved hmoved => ?_
  omega

theorem group (hd : d.Suffices fuel) (htwo : 2 ≤ fuel)
    (hfuel : 4 * cursor.remaining ≤ fuel) : cursor.Answered (d.group cursor) := by
  rw [Cursor.Answered, ensures_group]
  have hadvance := cursor.remaining_advance_le
  refine (hd.expr .default cursor.advance (by omega)).andThen (by omega)
    fun inner moved hmoved => ?_
  have hclose := moved.remaining_advance_le
  exact ⟨fun _ => by omega, fun _ => by omega⟩

theorem block (hd : d.Suffices fuel) (hpos : 0 < fuel)
    (hfuel : 4 * cursor.remaining ≤ fuel) : cursor.Answered (d.block cursor) := by
  rw [Cursor.Answered, ensures_block]
  have hadvance := cursor.remaining_advance_le
  refine (hd.stmts cursor.advance hpos fun hne => ?_).andThen (by omega) fun body moved hmoved => ?_
  · have := Cursor.remaining_pos hne
    omega
  · omega

theorem alternative (hd : d.Suffices fuel) (hpos : 0 < fuel)
    (hfuel : 4 * cursor.remaining ≤ fuel) : cursor.Answered (d.alternative cursor) := by
  rw [Cursor.Answered, ensures_alternative]
  have hword := cursor.remaining_advance_le
  have hopen := cursor.advance.remaining_advance_le
  refine ⟨fun _ => ⟨fun _ => ?_, fun _ => by omega⟩, fun _ => Nat.le_refl _⟩
  refine (hd.block hpos (by omega)).andThen (by omega) fun body moved hmoved => ?_
  omega

theorem conditional (hd : d.Suffices fuel) (htwo : 2 ≤ fuel)
    (hfuel : 4 * cursor.remaining ≤ fuel) : cursor.Answered (d.conditional cursor) := by
  rw [Cursor.Answered, ensures_conditional]
  have hadvance := cursor.remaining_advance_le
  refine (hd.expr .default cursor.advance (by omega)).andThen (by omega)
    fun condition tested htested => ?_
  refine ⟨fun _ => ?_, fun _ => by omega⟩
  have hopen := tested.remaining_advance_le
  refine (hd.block (by omega) (by omega)).andThen (by omega) fun consequence first hfirst => ?_
  refine (hd.alternative (by omega) (by omega)).andThen (by omega) fun other moved hmoved => ?_
  omega

theorem parameterList (hd : d.Suffices fuel) (hfuel : 4 * cursor.remaining + 1 ≤ fuel) :
    cursor.Answered (d.parameterList cursor) := by
  rw [Cursor.Answered, ensures_parameterList]
  have hadvance := cursor.remaining_advance_le
  refine ⟨fun _ => by omega, fun _ => ?_⟩
  refine (hd.parameters cursor hfuel).andThen (by omega) fun names moved hmoved => ?_
  have hclose := moved.remaining_advance_le
  exact ⟨fun _ => by omega, fun _ => by omega⟩

theorem function (hd : d.Suffices fuel) (htwo : 2 ≤ fuel)
    (hfuel : 4 * cursor.remaining ≤ fuel) : cursor.Answered (d.function cursor) := by
  rw [Cursor.Answered, ensures_function]
  refine ⟨fun hparen => ?_, fun _ => by omega⟩
  have hne := TokenKind.ne_eof_of_eq hparen (by decide)
  have hpos := Cursor.remaining_pos (Cursor.current_ne_eof hne)
  have hadvance := cursor.remaining_advance_le
  refine (hd.parameterList (by omega)).andThen (by omega) fun names listed hlisted => ?_
  refine ⟨fun _ => ?_, fun _ => by omega⟩
  have hopen := listed.remaining_advance_le
  refine (hd.block (by omega) (by omega)).andThen (by omega) fun body moved hmoved => ?_
  omega

theorem lead (hd : d.Suffices fuel) (rule : LeadingRule) (htwo : 2 ≤ fuel)
    (hfuel : 4 * cursor.remaining ≤ fuel) : cursor.Answered (d.lead rule cursor) := by
  cases rule with
  | literal => exact ensures_literal.2 ⟨fun _ _ => Nat.le_refl _, fun _ _ => Nat.le_refl _⟩
  | operator => exact hd.operator htwo hfuel
  | group => exact hd.group htwo hfuel
  | conditional => exact hd.conditional htwo hfuel
  | function => exact hd.function htwo hfuel

/-! ### Trailing rules -/

theorem binary (hd : d.Suffices fuel) (left : Expr) (floor : BindingPower) (htwo : 2 ≤ fuel)
    (hfuel : 4 * cursor.remaining ≤ fuel) : cursor.Answered (d.binary left floor cursor) := by
  rw [Cursor.Answered, ensures_binary]
  have hadvance := cursor.remaining_advance_le
  refine (hd.expr floor cursor.advance (by omega)).andThen (by omega) fun right moved hmoved => ?_
  omega

theorem argumentList (hd : d.Suffices fuel) (htwo : 2 ≤ fuel)
    (hfuel : 4 * cursor.remaining ≤ fuel) : cursor.Answered (d.argumentList cursor) := by
  rw [Cursor.Answered, ensures_argumentList]
  have hadvance := cursor.remaining_advance_le
  refine ⟨fun _ => by omega, fun hargument => ?_⟩
  refine (hd.expr .default cursor.advance (by omega)).andThen (by omega) fun first one hone => ?_
  refine (hd.arguments one (by omega)).andThen (by omega) fun others moved hmoved => ?_
  have hclose := moved.remaining_advance_le
  exact ⟨fun _ => by omega, fun _ => by omega⟩

theorem call (hd : d.Suffices fuel) (callee : Expr) (htwo : 2 ≤ fuel)
    (hfuel : 4 * cursor.remaining ≤ fuel) : cursor.Answered (d.call callee cursor) := by
  rw [Cursor.Answered, ensures_call]
  exact hd.argumentList htwo hfuel

theorem trail (hd : d.Suffices fuel) (left : Expr) (power : BindingPower) (rule : TrailingRule)
    (htwo : 2 ≤ fuel) (hfuel : 4 * cursor.remaining ≤ fuel) :
    cursor.Answered (d.trail left power rule cursor) := by
  cases rule with
  | binary => exact hd.binary left power htwo hfuel
  | binaryRight => exact hd.binary left power.pred htwo hfuel
  | call => exact hd.call left htwo hfuel
  | bareCall => exact Nat.le_refl _

/-! ### Statements -/

theorem binding (hd : d.Suffices fuel) (htwo : 2 ≤ fuel)
    (hfuel : 4 * cursor.remaining ≤ fuel) : cursor.Answered (d.binding cursor) := by
  rw [Cursor.Answered, ensures_binding]
  have hname := cursor.remaining_advance_le
  refine ⟨fun _ => ⟨fun _ => ?_, fun _ => by omega⟩, fun _ => Nat.le_refl _⟩
  have hsign := cursor.advance.remaining_advance_le
  have hvalue := cursor.advance.advance.remaining_advance_le
  refine (hd.expr .default cursor.advance.advance.advance (by omega)).andThen (by omega)
    fun value moved hmoved => ?_
  have hskip := moved.remaining_skipOptional_le .semicolon
  omega

theorem result (hd : d.Suffices fuel) (htwo : 2 ≤ fuel)
    (hfuel : 4 * cursor.remaining ≤ fuel) : cursor.Answered (d.result cursor) := by
  rw [Cursor.Answered, ensures_result]
  refine ⟨fun _ => cursor.remaining_skipOptional_le .semicolon, fun _ => ?_⟩
  have hadvance := cursor.remaining_advance_le
  refine (hd.expr .default cursor.advance (by omega)).andThen (by omega)
    fun value moved hmoved => ?_
  have hskip := moved.remaining_skipOptional_le .semicolon
  omega

theorem expression (hd : d.Suffices fuel) (hfuel : 4 * cursor.remaining + 2 ≤ fuel) :
    cursor.Answered (d.expression cursor) := by
  rw [Cursor.Answered, ensures_expression]
  refine (hd.expr .default cursor hfuel).andThen (by omega) fun value moved hmoved => ?_
  exact Nat.le_trans (moved.remaining_skipOptional_le .semicolon) hmoved

theorem strictResult (hd : d.Suffices fuel) (htwo : 2 ≤ fuel)
    (hfuel : 4 * cursor.remaining ≤ fuel) : cursor.Answered (d.strictResult cursor) := by
  rw [Cursor.Answered, ensures_strictResult]
  have hadvance := cursor.remaining_advance_le
  refine (hd.expr .default cursor.advance (by omega)).andThen (by omega)
    fun value moved hmoved => ?_
  have hskip := moved.remaining_skipOptional_le .semicolon
  omega

theorem bareBlock (hd : d.Suffices fuel) (hpos : 0 < fuel)
    (hfuel : 4 * cursor.remaining ≤ fuel) : cursor.Answered (d.bareBlock cursor) := by
  rw [Cursor.Answered, ensures_bareBlock]
  refine (hd.block hpos hfuel).andThen (by omega) fun body moved hmoved => ?_
  exact Nat.le_trans (moved.remaining_skipOptional_le .semicolon) hmoved

theorem statement (hd : d.Suffices fuel) (rule : StatementRule)
    (hfuel : 4 * cursor.remaining + 2 ≤ fuel) : cursor.Answered (d.statement rule cursor) := by
  cases rule with
  | binding => exact hd.binding (by omega) (by omega)
  | result => exact hd.result (by omega) (by omega)
  | expression => exact hd.expression hfuel
  | strictResult => exact hd.strictResult (by omega) (by omega)
  | bareBlock => exact hd.bareBlock (by omega) (by omega)

/-! ### One unit more -/

theorem exprStep {grammar : Grammar} (hg : grammar.StopsAtEnd) (hd : d.Suffices fuel)
    (floor : BindingPower) (hfuel : 4 * cursor.remaining + 1 ≤ fuel) :
    cursor.Answered (exprStep grammar d floor cursor) := by
  rw [Cursor.Answered, ensures_exprStep]
  refine ⟨fun rule hrule => ?_, fun _ => by omega⟩
  have hne : cursor.current.kind ≠ .eof := fun heof => by
    rw [heof, hg.leading_eof] at hrule
    cases hrule
  have hpos := Cursor.remaining_pos hne
  refine (hd.lead rule (by omega) (by omega)).andThen (by omega) fun left moved hmoved => ?_
  refine (hd.chain floor left moved (by omega)).andThen (by omega) fun longer last hlast => ?_
  exact Nat.le_trans hlast hmoved

theorem chainStep {grammar : Grammar} (hg : grammar.StopsAtEnd) (hd : d.Suffices fuel)
    (floor : BindingPower) (left : Expr) (hfuel : 4 * cursor.remaining ≤ fuel) :
    cursor.Answered (chainStep grammar d floor left cursor) := by
  rw [Cursor.Answered, ensures_chainStep]
  refine ⟨fun power rule hrule => ?_, fun _ => Nat.le_refl _⟩
  have hpos := Cursor.remaining_pos (Cursor.current_ne_eof (hg.kind_ne_eof hrule))
  have hadvance := cursor.remaining_advance_le
  refine (hd.trail left power rule (by omega) (by omega)).andThen (by omega)
    fun longer moved hmoved => ?_
  refine (hd.chain floor longer moved (by omega)).andThen (by omega) fun longest last hlast => ?_
  omega

theorem stmtStep {grammar : Grammar} (hd : d.Suffices fuel)
    (hfuel : 4 * cursor.remaining + 2 ≤ fuel) :
    cursor.Answered (stmtStep grammar d cursor) := by
  rw [Cursor.Answered, ensures_stmtStep]
  exact ⟨fun rule _ => hd.statement rule hfuel, fun _ => hd.expression hfuel⟩

theorem stmtsStep (hd : d.Suffices fuel)
    (hfuel : cursor.current.kind ≠ .eof → 4 * cursor.remaining + 3 ≤ fuel) :
    cursor.Answered (stmtsStep d cursor) := by
  rw [Cursor.Answered, ensures_stmtsStep]
  refine ⟨fun _ => Nat.le_refl _, fun _ => by omega, fun _ hne => ?_⟩
  have hpos := Cursor.remaining_pos hne
  have henough := hfuel hne
  refine (hd.stmt cursor henough).andThen (by omega) fun first moved hmoved => ?_
  have hadvance := moved.remaining_advance_le
  refine (hd.stmts moved.advance (by omega) fun _ => by omega).andThen (by omega)
    fun others last hlast => ?_
  omega

theorem parametersStep (hd : d.Suffices fuel) (hfuel : 4 * cursor.remaining ≤ fuel) :
    cursor.Answered (parametersStep d cursor) := by
  rw [Cursor.Answered, ensures_parametersStep]
  refine ⟨fun hname => ?_, fun _ => by omega⟩
  have hne := TokenKind.ne_eof_of_eq hname (by decide)
  have hpos := Cursor.remaining_pos (Cursor.current_ne_eof hne)
  have hadvance := cursor.remaining_advance_le
  have hcomma := cursor.advance.remaining_advance_le
  refine ⟨fun _ => ?_, fun _ => by omega⟩
  refine (hd.parameters cursor.advance.advance (by omega)).andThen (by omega)
    fun others last hlast => ?_
  omega

theorem argumentsStep (hd : d.Suffices fuel) (hfuel : 4 * cursor.remaining ≤ fuel) :
    cursor.Answered (argumentsStep d cursor) := by
  rw [Cursor.Answered, ensures_argumentsStep]
  refine ⟨fun hcomma => ?_, fun _ => Nat.le_refl _⟩
  have hne := TokenKind.ne_eof_of_eq hcomma (by decide)
  have hpos := Cursor.remaining_pos (Cursor.current_ne_eof hne)
  have hadvance := cursor.remaining_advance_le
  have hargument := cursor.advance.remaining_advance_le
  refine (hd.expr .default cursor.advance.advance (by omega)).andThen (by omega)
    fun argument one hone => ?_
  refine (hd.arguments one (by omega)).andThen (by omega) fun others last hlast => ?_
  omega

/-- Entry points that use those of `d` for their parts suffice for one unit
more. -/
theorem step {grammar : Grammar} (hg : grammar.StopsAtEnd) (hd : d.Suffices fuel) :
    (Descent.step grammar d).Suffices (fuel + 1) where
  expr floor _ hfuel := hd.exprStep hg floor (by omega)
  chain floor left _ hfuel := hd.chainStep hg floor left (by omega)
  stmt _ hfuel := hd.stmtStep (by omega)
  stmts _ _ hfuel := hd.stmtsStep fun hne => by
    have := hfuel hne
    omega
  parameters _ hfuel := hd.parametersStep (by omega)
  arguments _ hfuel := hd.argumentsStep (by omega)

end Descent.Suffices

/-- No entry point stops where it has the fuel that `Descent.Suffices` asks
for. -/
theorem descent_suffices {grammar : Grammar} (hg : grammar.StopsAtEnd) (fuel : Nat) :
    (descent grammar fuel : Descent σ).Suffices fuel := by
  induction fuel with
  | zero => constructor <;> intros <;> omega
  | succ fuel ih =>
    rw [descent_succ]
    exact ih.step hg

/-! ## More fuel -/

/-- The outcomes agree, unless the first one is a stop. -/
def Outcome.Below {σ : Type} (outcome outcome' : Outcome σ α) : Prop :=
  outcome = .exhausted ∨ outcome = outcome'

/-- The outcomes agree, unless the first one is a stop, and a value leaves off in
`P`. -/
structure Outcome.BelowIn {σ : Type} (P : σ → Prop) (outcome outcome' : Outcome σ α) :
    Prop where
  below : outcome.Below outcome'
  gives : outcome.Gives fun _ state => P state

namespace Outcome.Below

theorem refl {σ : Type} (outcome : Outcome σ α) : outcome.Below outcome := Or.inr rfl

theorem eq {σ : Type} {outcome outcome' : Outcome σ α} (h : outcome.Below outcome')
    (hne : outcome ≠ .exhausted) : outcome = outcome' :=
  h.resolve_left hne

theorem anywhere {σ : Type} {outcome outcome' : Outcome σ α} (h : outcome.Below outcome') :
    outcome.BelowIn (fun _ => True) outcome' := by
  refine ⟨h, ?_⟩
  cases outcome <;> trivial

variable {β : Type} {first first' : Action σ α} {rest rest' : α → Action σ β}
  {cursor moved : Cursor σ} {P : Cursor σ → Prop}

/-- Actions in a row, each with more fuel than before. -/
theorem bind (hfirst : (first cursor).BelowIn P (first' cursor))
    (hrest : ∀ value moved, P moved → (rest value moved).Below (rest' value moved)) :
    ((first >>= rest) cursor).Below ((first' >>= rest') cursor) := by
  obtain ⟨hbelow, hgives⟩ := hfirst
  rw [bind_apply, bind_apply]
  rcases hbelow with hstop | heq
  · rw [hstop]
    exact Or.inl rfl
  · rw [← heq]
    cases hvalue : first cursor with
    | ok value moved =>
      rw [hvalue] at hgives
      exact hrest value moved hgives
    | fail diagnostic moved => exact refl _
    | exhausted => exact refl _

/-- The rest of an action after a step that uses no fuel. -/
theorem after {value : α} (hfirst : first cursor = .ok value moved)
    (hrest : (rest value moved).Below (rest' value moved)) :
    ((first >>= rest) cursor).Below ((first >>= rest') cursor) := by
  rw [bind_apply, bind_apply, hfirst]
  exact hrest

theorem afterExpect {rest rest' : Token → Action σ β} {kind : TokenKind} {construct : String}
    (hrest : (rest cursor.peek cursor.advance).Below (rest' cursor.peek cursor.advance)) :
    ((expect kind construct >>= rest) cursor).Below ((expect kind construct >>= rest') cursor) := by
  by_cases hkind : cursor.peek.kind = kind
  · exact after (if_pos hkind) hrest
  · have hfail : expect kind construct cursor = .fail _ cursor := if_neg hkind
    rw [bind_apply, bind_apply, hfail]
    exact refl _

end Outcome.Below

open Outcome.Below

/-- At every cursor in `P`, the parts of rules do in `d'` what they do in `d`, unless
this stops.  No part that is read leads out of `P`, and no advance does. -/
structure Descent.BelowIn (P : Cursor σ → Prop) (d d' : Descent σ) : Prop where
  advance : ∀ cursor, P cursor → P cursor.advance
  expr : ∀ floor cursor, P cursor → (d.expr floor cursor).BelowIn P (d'.expr floor cursor)
  stmts : ∀ cursor, P cursor → (d.stmts cursor).BelowIn P (d'.stmts cursor)
  parameters : ∀ cursor, P cursor → (d.parameters cursor).BelowIn P (d'.parameters cursor)
  arguments : ∀ cursor, P cursor → (d.arguments cursor).BelowIn P (d'.arguments cursor)

namespace Descent.BelowIn

variable {P Q : Cursor σ → Prop} {d d' : Descent σ} {cursor : Cursor σ} {grammar : Grammar}

theorem block (h : d.BelowIn P d') (hP : P cursor.advance) :
    (d.block cursor).BelowIn P (d'.block cursor) where
  below := after rfl (after rfl (bind (h.stmts _ hP) fun _ _ _ => refl _))
  gives := ensures_block.2 (h.stmts _ hP).gives

theorem alternative (h : d.BelowIn P d') (hP : P cursor) :
    (d.alternative cursor).Below (d'.alternative cursor) := by
  have hblock := h.advance _ (h.advance _ (h.advance _ hP))
  refine after rfl ?_
  split
  · exact after rfl (afterExpect (bind (h.block hblock) fun _ _ _ => refl _))
  · exact refl _

theorem parameterList (h : d.BelowIn P d') (hP : P cursor) :
    (d.parameterList cursor).BelowIn P (d'.parameterList cursor) where
  below := by
    refine after rfl ?_
    split
    · exact refl _
    · exact bind (h.parameters _ hP) fun _ _ _ => refl _
  gives := ensures_parameterList.2 ⟨fun _ => h.advance _ hP, fun _ =>
    (h.parameters _ hP).gives.imp fun _ _ hmoved =>
      ⟨fun _ => h.advance _ hmoved, fun _ => trivial⟩⟩

theorem lead (h : d.BelowIn P d') (rule : LeadingRule) (hP : P cursor.advance) :
    (d.lead rule cursor).Below (d'.lead rule cursor) := by
  cases rule with
  | literal => exact refl _
  | operator => exact after rfl (after rfl (bind (h.expr _ _ hP) fun _ _ _ => refl _))
  | group => exact after rfl (bind (h.expr _ _ hP) fun _ _ _ => refl _)
  | conditional =>
    refine after rfl (after rfl (bind (h.expr _ _ hP) fun _ tested htested => afterExpect ?_))
    refine bind (h.block (h.advance _ (h.advance _ htested))) fun _ first hfirst => ?_
    exact bind (h.alternative hfirst).anywhere fun _ _ _ => refl _
  | function =>
    refine after rfl (afterExpect (bind (h.parameterList hP) fun _ listed hlisted => ?_))
    exact afterExpect (bind (h.block (h.advance _ (h.advance _ hlisted))) fun _ _ _ => refl _)

theorem argumentList (h : d.BelowIn P d') (hP : P cursor.advance) :
    (d.argumentList cursor).BelowIn P (d'.argumentList cursor) where
  below := by
    refine after rfl ?_
    split
    · exact refl _
    · exact after rfl (bind (h.expr _ _ hP) fun _ one hone =>
        bind (h.arguments one hone) fun _ _ _ => refl _)
  gives := ensures_argumentList.2 ⟨fun _ => hP, fun _ =>
    (h.expr _ _ hP).gives.imp fun _ one hone => (h.arguments one hone).gives.imp
      fun _ _ hmoved => ⟨fun _ => h.advance _ hmoved, fun _ => trivial⟩⟩

theorem binary (h : d.BelowIn P d') (left : Expr) (floor : BindingPower) (hP : P cursor.advance) :
    (d.binary left floor cursor).BelowIn P (d'.binary left floor cursor) where
  below := after rfl (after rfl (bind (h.expr _ _ hP) fun _ _ _ => refl _))
  gives := ensures_binary.2 (h.expr _ _ hP).gives

theorem trail (h : d.BelowIn P d') (left : Expr) (power : BindingPower) (rule : TrailingRule)
    (hP : P cursor) :
    (d.trail left power rule cursor).BelowIn P (d'.trail left power rule cursor) := by
  have hnext := h.advance _ hP
  cases rule with
  | binary => exact h.binary left power hnext
  | binaryRight => exact h.binary left power.pred hnext
  | call =>
    have hlist := h.argumentList hnext
    exact ⟨after rfl (bind hlist fun _ _ _ => refl _), ensures_call.2 hlist.gives⟩
  | bareCall => exact ⟨refl _, hP⟩

theorem statement (h : d.BelowIn P d') (rule : StatementRule) (hP : P cursor.advance)
    (hexpr : ∀ floor, (d.expr floor cursor).Below (d'.expr floor cursor)) :
    (d.statement rule cursor).Below (d'.statement rule cursor) := by
  cases rule with
  | binding =>
    have hvalue := h.advance _ (h.advance _ hP)
    exact after rfl (afterExpect (afterExpect (after rfl
      (bind (h.expr _ _ hvalue) fun _ _ _ => refl _))))
  | result =>
    refine after rfl (bind (anywhere (after rfl ?_)) fun _ _ _ => refl _)
    split
    · exact refl _
    · exact after rfl (bind (h.expr _ _ hP) fun _ _ _ => refl _)
  | expression => exact after rfl (bind (hexpr _).anywhere fun _ _ _ => refl _)
  | strictResult => exact after rfl (after rfl (bind (h.expr _ _ hP) fun _ _ _ => refl _))
  | bareBlock => exact after rfl (bind (h.block hP) fun _ _ _ => refl _)

/-! ### One unit more -/

theorem exprStep (h : d.BelowIn P d') (floor : BindingPower) (hP : P cursor.advance)
    (hlead : ∀ rule, (d.lead rule cursor).Gives fun _ moved => Q moved)
    (hchain : ∀ left moved, Q moved →
      (d.chain floor left moved).Below (d'.chain floor left moved)) :
    (exprStep grammar d floor cursor).Below (exprStep grammar d' floor cursor) := by
  refine after rfl ?_
  cases grammar.leading cursor.current.kind with
  | none => exact refl _
  | some rule => exact bind ⟨h.lead rule hP, hlead rule⟩ hchain

theorem chainStep (floor : BindingPower) (left : Expr)
    (htrail : ∀ power rule, grammar.continuation floor cursor.peek.kind = some (power, rule) →
      (d.trail left power rule cursor.advance).BelowIn Q
        (d'.trail left power rule cursor.advance))
    (hchain : ∀ left moved, Q moved →
      (d.chain floor left moved).Below (d'.chain floor left moved)) :
    (chainStep grammar d floor left cursor).Below (chainStep grammar d' floor left cursor) := by
  refine after rfl ?_
  cases hentry : grammar.trailing cursor.peek.kind with
  | none => exact refl _
  | some entry =>
    dsimp only
    split
    case isTrue h =>
      exact after rfl (bind (htrail _ _ (Grammar.continuation_eq_some.2 ⟨hentry, h⟩)) hchain)
    case isFalse => exact refl _

theorem stmtStep (h : d.BelowIn P d') (hP : P cursor.advance)
    (hexpr : ∀ floor, (d.expr floor cursor).Below (d'.expr floor cursor)) :
    (stmtStep grammar d cursor).Below (stmtStep grammar d' cursor) := by
  refine after rfl ?_
  cases grammar.statement cursor.current.kind with
  | none => exact h.statement .expression hP hexpr
  | some rule => exact h.statement rule hP hexpr

theorem stmtsStep (hstmt : (d.stmt cursor).BelowIn Q (d'.stmt cursor))
    (hstmts : ∀ moved, Q moved → (d.stmts moved.advance).Below (d'.stmts moved.advance)) :
    (stmtsStep d cursor).Below (stmtsStep d' cursor) := by
  refine after rfl ?_
  split
  · exact refl _
  split
  · exact refl _
  · exact bind hstmt fun _ moved hmoved => after rfl
      (bind (hstmts moved hmoved).anywhere fun _ _ _ => refl _)

theorem parametersStep (h : d.BelowIn P d') (hP : P cursor.advance) :
    (parametersStep d cursor).Below (parametersStep d' cursor) := by
  refine afterExpect (after rfl ?_)
  split
  · exact after rfl (bind (h.parameters _ (h.advance _ hP)) fun _ _ _ => refl _)
  · exact refl _

theorem argumentsStep (h : d.BelowIn P d') (hP : P cursor.advance) :
    (argumentsStep d cursor).Below (argumentsStep d' cursor) := by
  refine after rfl ?_
  split
  · exact after rfl (after rfl (bind (h.expr _ _ (h.advance _ hP)) fun _ one hone =>
      bind (h.arguments one hone) fun _ _ _ => refl _))
  · exact refl _

end Descent.BelowIn

/-- Every entry point of `d'` does what that of `d` does, unless this one
stops. -/
structure Descent.Below (d d' : Descent σ) : Prop where
  expr : ∀ floor cursor, (d.expr floor cursor).Below (d'.expr floor cursor)
  chain : ∀ floor left cursor, (d.chain floor left cursor).Below (d'.chain floor left cursor)
  stmt : ∀ cursor, (d.stmt cursor).Below (d'.stmt cursor)
  stmts : ∀ cursor, (d.stmts cursor).Below (d'.stmts cursor)
  parameters : ∀ cursor, (d.parameters cursor).Below (d'.parameters cursor)
  arguments : ∀ cursor, (d.arguments cursor).Below (d'.arguments cursor)

namespace Descent.Below

variable {d d' : Descent σ}

theorem anywhere (h : d.Below d') : d.BelowIn (fun _ => True) d' where
  advance _ _ := trivial
  expr floor cursor _ := (h.expr floor cursor).anywhere
  stmts cursor _ := (h.stmts cursor).anywhere
  parameters cursor _ := (h.parameters cursor).anywhere
  arguments cursor _ := (h.arguments cursor).anywhere

/-- Entry points that use those of `d'` for their parts go at least as far as those
that use `d`. -/
theorem step (grammar : Grammar) (h : d.Below d') :
    (Descent.step grammar d).Below (Descent.step grammar d') where
  expr floor _ := h.anywhere.exprStep floor trivial
    (fun rule => (h.anywhere.lead rule trivial).anywhere.gives)
    fun left moved _ => h.chain floor left moved
  chain floor left _ := BelowIn.chainStep floor left
    (fun power rule _ => h.anywhere.trail left power rule trivial)
    fun left moved _ => h.chain floor left moved
  stmt cursor := h.anywhere.stmtStep trivial fun floor => h.expr floor cursor
  stmts cursor := BelowIn.stmtsStep (h.stmt cursor).anywhere fun moved _ => h.stmts moved.advance
  parameters _ := h.anywhere.parametersStep trivial
  arguments _ := h.anywhere.argumentsStep trivial

end Descent.Below

theorem descent_below_succ (grammar : Grammar) (fuel : Nat) :
    (descent grammar fuel : Descent σ).Below (descent grammar (fuel + 1)) := by
  induction fuel with
  | zero => constructor <;> intros <;> exact Or.inl rfl
  | succ fuel ih => exact ih.step grammar

theorem Outcome.Below.trans {σ : Type} {first second third : Outcome σ α}
    (h : first.Below second) (h' : second.Below third) : first.Below third := by
  rcases h with hstop | rfl
  · exact Or.inl hstop
  · exact h'

theorem Descent.Below.trans {d d' d'' : Descent σ} (h : d.Below d') (h' : d'.Below d'') :
    d.Below d'' where
  expr floor cursor := (h.expr floor cursor).trans (h'.expr floor cursor)
  chain floor left cursor := (h.chain floor left cursor).trans (h'.chain floor left cursor)
  stmt cursor := (h.stmt cursor).trans (h'.stmt cursor)
  stmts cursor := (h.stmts cursor).trans (h'.stmts cursor)
  parameters cursor := (h.parameters cursor).trans (h'.parameters cursor)
  arguments cursor := (h.arguments cursor).trans (h'.arguments cursor)

/-- More fuel changes no outcome but a stop. -/
theorem descent_mono (grammar : Grammar) {fuel fuel' : Nat} (h : fuel ≤ fuel') :
    (descent grammar fuel : Descent σ).Below (descent grammar fuel') := by
  induction h with
  | refl => constructor <;> intros <;> exact refl _
  | step _ ih => exact ih.trans (descent_below_succ grammar _)

/-! ## No fuel -/

/-- The entry points of a grammar, each with the fuel that suffices where it
begins. -/
def reader (grammar : Grammar) : Descent σ where
  expr floor cursor := (descent grammar cursor.fuel).expr floor cursor
  chain floor left cursor := (descent grammar cursor.fuel).chain floor left cursor
  stmt cursor := (descent grammar cursor.fuel).stmt cursor
  stmts cursor := (descent grammar cursor.fuel).stmts cursor
  parameters cursor := (descent grammar cursor.fuel).parameters cursor
  arguments cursor := (descent grammar cursor.fuel).arguments cursor

theorem Cursor.Answered.ne_exhausted {cursor : Cursor σ} {outcome : Outcome (Cursor σ) α}
    (h : cursor.Answered outcome) : outcome ≠ .exhausted := fun hstop => by
  rw [hstop] at h
  exact h

variable {grammar : Grammar}

/-- The entry points of `d` answer everywhere. -/
structure Descent.Answers (d : Descent σ) : Prop where
  expr : ∀ (floor : BindingPower) (cursor : Cursor σ), cursor.Answered (d.expr floor cursor)
  chain : ∀ (floor : BindingPower) (left : Expr) (cursor : Cursor σ),
    cursor.Answered (d.chain floor left cursor)
  stmt : ∀ cursor : Cursor σ, cursor.Answered (d.stmt cursor)
  stmts : ∀ cursor : Cursor σ, cursor.Answered (d.stmts cursor)
  parameters : ∀ cursor : Cursor σ, cursor.Answered (d.parameters cursor)
  arguments : ∀ cursor : Cursor σ, cursor.Answered (d.arguments cursor)

/-- What answers everywhere suffices, with any fuel. -/
theorem Descent.Answers.suffices {d : Descent σ} (hd : d.Answers) {fuel : Nat} :
    d.Suffices fuel where
  expr floor cursor _ := hd.expr floor cursor
  chain floor left cursor _ := hd.chain floor left cursor
  stmt cursor _ := hd.stmt cursor
  stmts cursor _ _ := hd.stmts cursor
  parameters cursor _ := hd.parameters cursor
  arguments cursor _ := hd.arguments cursor

theorem Cursor.fuel_eq (cursor : Cursor σ) : cursor.fuel = 4 * cursor.remaining + 8 := by
  unfold Cursor.fuel
  omega

/-- The reader never stops. -/
theorem reader_answers (hg : grammar.StopsAtEnd) :
    (reader grammar : Descent σ).Answers where
  expr floor cursor :=
    (descent_suffices hg cursor.fuel).expr floor cursor (by rw [cursor.fuel_eq]; omega)
  chain floor left cursor :=
    (descent_suffices hg cursor.fuel).chain floor left cursor (by rw [cursor.fuel_eq]; omega)
  stmt cursor := (descent_suffices hg cursor.fuel).stmt cursor (by rw [cursor.fuel_eq]; omega)
  stmts cursor :=
    (descent_suffices hg cursor.fuel).stmts cursor (by rw [cursor.fuel_eq]; omega) fun _ => by
      rw [cursor.fuel_eq]
      omega
  parameters cursor :=
    (descent_suffices hg cursor.fuel).parameters cursor (by rw [cursor.fuel_eq]; omega)
  arguments cursor :=
    (descent_suffices hg cursor.fuel).arguments cursor (by rw [cursor.fuel_eq]; omega)

/-- Two sets of entry points do the same at a cursor. -/
structure Descent.SameAt (d d' : Descent σ) (cursor : Cursor σ) : Prop where
  expr : ∀ floor, d.expr floor cursor = d'.expr floor cursor
  chain : ∀ floor left, d.chain floor left cursor = d'.chain floor left cursor
  stmt : d.stmt cursor = d'.stmt cursor
  stmts : d.stmts cursor = d'.stmts cursor
  parameters : d.parameters cursor = d'.parameters cursor
  arguments : d.arguments cursor = d'.arguments cursor

theorem Descent.ext_of_sameAt {d d' : Descent σ} (h : ∀ cursor, d.SameAt d' cursor) : d = d' := by
  apply Descent.ext
  · funext floor cursor
    exact (h cursor).expr floor
  · funext floor left cursor
    exact (h cursor).chain floor left
  · funext cursor
    exact (h cursor).stmt
  · funext cursor
    exact (h cursor).stmts
  · funext cursor
    exact (h cursor).parameters
  · funext cursor
    exact (h cursor).arguments

/-- What does what the parser does with enough fuel, unless this stops, does what
the reader does: with enough fuel the parser does not stop. -/
theorem reader_sameAt_of_below (hg : grammar.StopsAtEnd) {d : Descent σ} {cursor : Cursor σ}
    (h : (descent grammar cursor.fuel).Below d) : (reader grammar).SameAt d cursor where
  expr floor := (h.expr floor cursor).eq ((reader_answers hg).expr floor cursor).ne_exhausted
  chain floor left :=
    (h.chain floor left cursor).eq ((reader_answers hg).chain floor left cursor).ne_exhausted
  stmt := (h.stmt cursor).eq ((reader_answers hg).stmt cursor).ne_exhausted
  stmts := (h.stmts cursor).eq ((reader_answers hg).stmts cursor).ne_exhausted
  parameters := (h.parameters cursor).eq ((reader_answers hg).parameters cursor).ne_exhausted
  arguments := (h.arguments cursor).eq ((reader_answers hg).arguments cursor).ne_exhausted

/-- With more fuel than the reader takes, the parser does what the reader does. -/
theorem reader_sameAt_descent (hg : grammar.StopsAtEnd) {fuel : Nat} {cursor : Cursor σ}
    (h : cursor.fuel ≤ fuel) : (reader grammar).SameAt (descent grammar fuel) cursor :=
  reader_sameAt_of_below hg (descent_mono grammar h)

/-- Below any bound on the fuel, the parser does what the reader does, unless it
stops. -/
theorem descent_below_reader (hg : grammar.StopsAtEnd) (fuel : Nat) :
    (descent grammar fuel : Descent σ).Below (reader grammar) := by
  -- With less fuel than the reader takes, this is monotonicity.
  have hcase : ∀ (cursor : Cursor σ) {α : Type} {outcome outcome' : Outcome (Cursor σ) α},
      (fuel ≤ cursor.fuel → outcome.Below outcome') →
      (cursor.fuel ≤ fuel → outcome' = outcome) → outcome.Below outcome' := by
    intro cursor α outcome outcome' hless hmore
    rcases Nat.le_total fuel cursor.fuel with hle | hle
    · exact hless hle
    · exact Or.inr (hmore hle).symm
  constructor
  · intro floor cursor
    exact hcase cursor (fun h => (descent_mono grammar h).expr floor cursor)
      fun h => (reader_sameAt_descent hg h).expr floor
  · intro floor left cursor
    exact hcase cursor (fun h => (descent_mono grammar h).chain floor left cursor)
      fun h => (reader_sameAt_descent hg h).chain floor left
  · intro cursor
    exact hcase cursor (fun h => (descent_mono grammar h).stmt cursor)
      fun h => (reader_sameAt_descent hg h).stmt
  · intro cursor
    exact hcase cursor (fun h => (descent_mono grammar h).stmts cursor)
      fun h => (reader_sameAt_descent hg h).stmts
  · intro cursor
    exact hcase cursor (fun h => (descent_mono grammar h).parameters cursor)
      fun h => (reader_sameAt_descent hg h).parameters
  · intro cursor
    exact hcase cursor (fun h => (descent_mono grammar h).arguments cursor)
      fun h => (reader_sameAt_descent hg h).arguments

/-- The reader unfolds by one step: its parts are read by the reader itself. -/
theorem reader_eq_step (hg : grammar.StopsAtEnd) :
    (reader grammar : Descent σ) = Descent.step grammar (reader grammar) := by
  apply Descent.ext_of_sameAt
  intro cursor
  apply reader_sameAt_of_below hg
  show (descent grammar (4 * cursor.remaining + 7 + 1)).Below _
  exact (descent_below_reader hg _).step grammar

section Unfolding

variable (hg : grammar.StopsAtEnd)
include hg

theorem reader_expr (floor : BindingPower) (cursor : Cursor σ) :
    (reader grammar).expr floor cursor = exprStep grammar (reader grammar) floor cursor :=
  congrFun (congrFun (congrArg Descent.expr (reader_eq_step hg)) floor) cursor

theorem reader_chain (floor : BindingPower) (left : Expr) (cursor : Cursor σ) :
    (reader grammar).chain floor left cursor =
      chainStep grammar (reader grammar) floor left cursor :=
  congrFun (congrFun (congrFun (congrArg Descent.chain (reader_eq_step hg)) floor) left) cursor

theorem reader_stmt (cursor : Cursor σ) :
    (reader grammar).stmt cursor = stmtStep grammar (reader grammar) cursor :=
  congrFun (congrArg Descent.stmt (reader_eq_step hg)) cursor

theorem reader_stmts (cursor : Cursor σ) :
    (reader grammar).stmts cursor = stmtsStep (reader grammar) cursor :=
  congrFun (congrArg Descent.stmts (reader_eq_step hg)) cursor

theorem reader_parameters (cursor : Cursor σ) :
    (reader grammar).parameters cursor = parametersStep (reader grammar) cursor :=
  congrFun (congrArg Descent.parameters (reader_eq_step hg)) cursor

theorem reader_arguments (cursor : Cursor σ) :
    (reader grammar).arguments cursor = argumentsStep (reader grammar) cursor :=
  congrFun (congrArg Descent.arguments (reader_eq_step hg)) cursor

end Unfolding

end BraceLang
