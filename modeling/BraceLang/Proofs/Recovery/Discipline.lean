import BraceLang.Proofs.Parser.Fuel
import BraceLang.Proofs.Parser.Path
import BraceLang.Proofs.Syntax.Standard

/-!
# Where the parser stands when it leaves off

A statement begins with some number of braces open, its *base*.  While the parser
reads it, the cursor passes no token that is shallower than the base, and no semicolon
that is as shallow as the base; only the semicolon that ends the statement is, and
there the cursor stays (`descent_disciplined`).

* `Inside base` holds of the places that are passed.
* `Through base start cursor` holds after an expression: the cursor is on its last
  token, and the depth is the base again.
* `Breaks base start diagnostic cursor` holds after a failure.  The diagnostic
  blames the current token or the next one, and it blames the next one only if the
  current one does not end the statement.
-/

namespace BraceLang.Recovery

open Grammar Descent BraceLang.Action

variable {σ : Type} [TokenSource σ] {base : Nat} {start middle cursor moved : Cursor σ}

/-! ## Places -/

/-- The place can be passed within a statement that began with `base` braces
open. -/
structure Inside (base : Nat) (cursor : Cursor σ) : Prop where
  ne_eof : cursor.current.kind ≠ .eof
  le_depth : base ≤ cursor.depth
  lt_depth : cursor.current.kind = .semicolon → base < cursor.depth

/-- The way from `start` to `cursor` is inside the statement. -/
def Stays (base : Nat) (start cursor : Cursor σ) : Prop :=
  ∃ ts, start.Passes (Inside base) ts cursor

/-- Before the current token, `base` braces are open. -/
def Opens (base : Nat) (cursor : Cursor σ) : Prop :=
  cursor.depth = depthAfter base cursor.current.kind

/-- A construct begins at the current token, which is reached inside the
statement. -/
structure Enters (base : Nat) (start cursor : Cursor σ) : Prop where
  stays : Stays base start cursor
  opens : Opens base cursor

/-- A construct ends at the current token. -/
structure Through (base : Nat) (start cursor : Cursor σ) : Prop where
  stays : Stays base start cursor
  inside : Inside base cursor
  depth_eq : cursor.depth = base

/-- A statement ends at the current token, which can be its semicolon. -/
structure Ends (base : Nat) (start cursor : Cursor σ) : Prop where
  stays : Stays base start cursor
  ne_eof : cursor.current.kind ≠ .eof
  depth_eq : cursor.depth = base

/-! ## Blame -/

/-- The diagnostic is about the token: it has its position and its text, and what
it says of the token is the case. -/
def Blames (diagnostic : Diagnostic) (token : Token) : Prop :=
  diagnostic.position = token.start ∧
    match diagnostic.cause with
    | .expectedToken _ expected found text =>
      found = token.kind ∧ text = token.text ∧ expected ≠ token.kind
    | .noExpression kind text =>
      kind = token.kind ∧ text = token.text ∧ standard.leading token.kind = none
    | .notInteger literal =>
      token.kind = .integer ∧ literal = token.text ∧ Text.readInt64? token.text = none

/-- A statement is given up at the current token: the diagnostic blames this
token, or the next one.  A token that it blames where the cursor stands is the
last one that was looked at, unless it is the end. -/
structure Breaks (base : Nat) (start : Cursor σ) (diagnostic : Diagnostic)
    (cursor : Cursor σ) : Prop where
  stays : Stays base start cursor
  blames : Blames diagnostic cursor.current ∧
      (cursor.current.kind ≠ .eof → diagnostic.reach = 1) ∨
    Inside base cursor ∧ Blames diagnostic cursor.peek

/-- A token that is no brace and ends nothing. -/
def Plain (kind : TokenKind) : Prop :=
  kind ≠ .eof ∧ kind ≠ .semicolon ∧ kind ≠ .openCurly ∧ kind ≠ .closeCurly

instance (kind : TokenKind) : Decidable (Plain kind) :=
  inferInstanceAs (Decidable (_ ∧ _ ∧ _ ∧ _))

theorem depthAfter_of_ne {kind : TokenKind} (hopen : kind ≠ .openCurly)
    (hclose : kind ≠ .closeCurly) : depthAfter base kind = base := by
  unfold depthAfter
  split
  · exact absurd rfl hopen
  · exact absurd rfl hclose
  · rfl

theorem depthAfter_of_plain {kind : TokenKind} (h : Plain kind) : depthAfter base kind = base :=
  depthAfter_of_ne h.2.2.1 h.2.2.2

/-- The only token of a leading rule that is no literal is an integer that is too
large. -/
theorem notInteger_of_literal {token : Token} {cause : Cause}
    (hrule : standard.leading token.kind = some .literal) (h : token.literal = .error cause) :
    ∃ literal, cause = .notInteger literal ∧ token.kind = .integer ∧ literal = token.text ∧
      Text.readInt64? token.text = none := by
  unfold Token.literal at h
  rcases Syntax.leading_eq_some_iff.1 hrule with hkind | hkind | hkind | hkind | hkind <;>
    rw [hkind] at h
  · cases h
  · cases hread : Text.readInt64? token.text with
    | some value =>
      rw [hread] at h
      cases h
    | none =>
      rw [hread] at h
      cases h
      exact ⟨token.text, rfl, hkind, rfl, rfl⟩
  · cases h
  · cases h
  · cases h

/-! ## Steps -/

theorem Stays.here (base : Nat) (cursor : Cursor σ) : Stays base cursor cursor :=
  ⟨[], .here cursor⟩

theorem Stays.trans (h : Stays base start middle) (h' : Stays base middle cursor) :
    Stays base start cursor := by
  obtain ⟨ts, hts⟩ := h
  obtain ⟨us, hus⟩ := h'
  exact ⟨ts ++ us, hts.trans hus⟩

theorem Stays.advance (h : Stays base start cursor) (hinside : Inside base cursor) :
    Stays base start cursor.advance := by
  obtain ⟨ts, hts⟩ := h
  exact ⟨_, hts.snoc hinside⟩

/-- What is inside a block is inside the statement that holds the block. -/
theorem Inside.of_succ (h : Inside (base + 1) cursor) : Inside base cursor :=
  ⟨h.ne_eof, Nat.le_of_succ_le h.le_depth, fun hkind => Nat.lt_of_succ_lt (h.lt_depth hkind)⟩

theorem Stays.of_succ (h : Stays (base + 1) start cursor) : Stays base start cursor := by
  obtain ⟨ts, hts⟩ := h
  exact ⟨ts, hts.mono fun _ => Inside.of_succ⟩

/-- A failure inside a block is one inside the statement that holds the block. -/
theorem Breaks.of_succ {diagnostic : Diagnostic} (hstays : Stays base start middle)
    (h : Breaks (base + 1) middle diagnostic cursor) : Breaks base start diagnostic cursor := by
  refine ⟨hstays.trans h.stays.of_succ, ?_⟩
  rcases h.blames with hcurrent | ⟨hinside, hpeek⟩
  · exact .inl hcurrent
  · exact .inr ⟨hinside.of_succ, hpeek⟩

theorem opens_advance (h : cursor.depth = base) : Opens base cursor.advance := by
  rw [← h]
  rfl

/-- A token that is no brace stands where its construct began. -/
theorem Enters.through (h : Enters base start cursor) (hplain : Plain cursor.current.kind) :
    Through base start cursor := by
  have hdepth : cursor.depth = base := h.opens.trans (depthAfter_of_plain hplain)
  exact ⟨h.stays, ⟨hplain.1, Nat.le_of_eq hdepth.symm, fun hkind => absurd hkind hplain.2.1⟩,
    hdepth⟩

theorem Through.enters (h : Through base start cursor) : Enters base start cursor.advance :=
  ⟨h.stays.advance h.inside, opens_advance h.depth_eq⟩

/-- One token more that is no brace. -/
theorem Through.step (h : Through base start cursor) {kind : TokenKind}
    (hkind : cursor.peek.kind = kind) (hplain : Plain kind) :
    Through base start cursor.advance :=
  h.enters.through (by rw [show cursor.advance.current.kind = kind from hkind]; exact hplain)

theorem depth_skipOptional_semicolon (cursor : Cursor σ) :
    (cursor.skipOptional .semicolon).depth = cursor.depth := by
  unfold Cursor.skipOptional
  split
  · rename_i hkind
    show depthAfter cursor.depth cursor.peek.kind = cursor.depth
    rw [hkind]
    rfl
  · rfl

/-- A construct ends behind the statement in which it is, or at its semicolon. -/
theorem Through.ends (h : Through base start cursor) :
    Ends base start (cursor.skipOptional .semicolon) := by
  have hdepth := (depth_skipOptional_semicolon cursor).trans h.depth_eq
  by_cases hkind : cursor.peek.kind = .semicolon
  · rw [Cursor.skipOptional, if_pos hkind] at hdepth ⊢
    exact ⟨h.enters.stays, TokenKind.ne_eof_of_eq hkind (by decide), hdepth⟩
  · rw [Cursor.skipOptional, if_neg hkind] at hdepth ⊢
    exact ⟨h.stays, h.inside.ne_eof, hdepth⟩

theorem blames_unexpected {construct : String} {kind : TokenKind} {token : Token}
    (h : token.kind ≠ kind) : Blames (unexpected construct kind token) token :=
  ⟨rfl, rfl, rfl, h.symm⟩

/-- A token that does not go on with a construct is to blame. -/
theorem Through.breaks (h : Through base start cursor) {construct : String} {kind : TokenKind}
    (hkind : cursor.peek.kind ≠ kind) :
    Breaks base start (unexpected construct kind cursor.peek) cursor :=
  ⟨h.stays, .inr ⟨h.inside, blames_unexpected hkind⟩⟩

/-! ## Rules -/

/-- An action ends on the last token of a construct, or gives up. -/
abbrev Keeps {α : Type} (base : Nat) (start : Cursor σ) (outcome : Outcome (Cursor σ) α) : Prop :=
  outcome.Ensures True (fun _ moved => Through base start moved) (Breaks base start)

/-- An action ends on the last token of a statement, or gives up. -/
abbrev Finishes {α : Type} (base : Nat) (start : Cursor σ) (outcome : Outcome (Cursor σ) α) :
    Prop :=
  outcome.Ensures True (fun _ moved => Ends base start moved) (Breaks base start)

/-- The entry points of `d` stay inside the statement from which they are
reached. -/
structure Disciplined (d : Descent σ) : Prop where
  expr : ∀ (floor : BindingPower) (base : Nat) (start cursor : Cursor σ),
    Enters base start cursor → Keeps base start (d.expr floor cursor)
  chain : ∀ (floor : BindingPower) (left : Expr) (base : Nat) (start cursor : Cursor σ),
    Through base start cursor → Keeps base start (d.chain floor left cursor)
  stmt : ∀ (base : Nat) (start cursor : Cursor σ), Enters base start cursor →
    Finishes base start (d.stmt cursor)
  stmts : ∀ (base : Nat) (start cursor : Cursor σ), Stays base start cursor →
    Opens (base + 1) cursor → Keeps base start (d.stmts cursor)
  parameters : ∀ (base : Nat) (start cursor : Cursor σ), Through base start cursor →
    Keeps base start (d.parameters cursor)
  arguments : ∀ (base : Nat) (start cursor : Cursor σ), Through base start cursor →
    Keeps base start (d.arguments cursor)

namespace Disciplined

variable {d : Descent σ}

theorem block (hd : Disciplined d) {cursor : Cursor σ} (h : Through base start cursor)
    (hopen : cursor.peek.kind = .openCurly) : Keeps base start (d.block cursor.advance) := by
  have hkind : cursor.advance.current.kind = .openCurly := hopen
  have hdepth : cursor.advance.depth = base + 1 := by
    have hopens := h.enters.opens
    rw [Opens, hkind] at hopens
    exact hopens
  have hinside : Inside base cursor.advance := by
    refine ⟨TokenKind.ne_eof_of_eq hkind (by decide), by omega, fun _ => by omega⟩
  exact ensures_block.2
    (hd.stmts base start _ (h.enters.stays.advance hinside) (opens_advance hdepth))

theorem group (hd : Disciplined d) (h : Through base start cursor) :
    Keeps base start (d.group cursor) := by
  apply ensures_group.2
  apply (hd.expr .default base start _ h.enters).imp
  intro inner moved hinner
  exact ⟨fun hclose => hinner.step hclose (by decide), fun hne => hinner.breaks hne⟩

theorem alternative (hd : Disciplined d) (h : Through base start cursor) :
    Keeps base start (d.alternative cursor) := by
  refine ensures_alternative.2 ⟨fun helse => ?_, fun _ => h⟩
  have hword := h.step helse (by decide)
  refine ⟨fun hopen => ?_, fun hne => hword.breaks hne⟩
  exact (hd.block hword hopen).imp fun body moved hbody => hbody

theorem conditional (hd : Disciplined d) (h : Through base start cursor) :
    Keeps base start (d.conditional cursor) := by
  apply ensures_conditional.2
  apply (hd.expr .default base start _ h.enters).imp
  intro condition tested hcondition
  refine ⟨fun hopen => ?_, fun hne => hcondition.breaks hne⟩
  apply (hd.block hcondition hopen).imp
  intro consequence first hconsequence
  exact (hd.alternative hconsequence).imp fun other moved hother => hother

theorem parameterList (hd : Disciplined d) (h : Through base start cursor) :
    Keeps base start (d.parameterList cursor) := by
  refine ensures_parameterList.2 ⟨fun hclose => h.step hclose (by decide), fun _ => ?_⟩
  apply (hd.parameters base start cursor h).imp
  intro names moved hnames
  exact ⟨fun hclose => hnames.step hclose (by decide), fun hne => hnames.breaks hne⟩

theorem function (hd : Disciplined d) (h : Through base start cursor) :
    Keeps base start (d.function cursor) := by
  refine ensures_function.2 ⟨fun hparen => ?_, fun hne => h.breaks hne⟩
  apply (hd.parameterList (h.step hparen (by decide))).imp
  intro names listed hlisted
  refine ⟨fun hopen => ?_, fun hne => hlisted.breaks hne⟩
  exact (hd.block hlisted hopen).imp fun body moved hbody => hbody

theorem literal (h : Through base start cursor)
    (hrule : standard.leading cursor.current.kind = some .literal) :
    Keeps base start (Descent.literal cursor) := by
  refine ensures_literal.2 ⟨fun expression _ => h, fun cause hcause => ⟨h.stays, .inl ?_⟩⟩
  obtain ⟨literal, rfl, hkind, htext, hread⟩ := notInteger_of_literal hrule hcause
  exact ⟨⟨rfl, hkind, htext, hread⟩, fun _ => rfl⟩

theorem lead (hd : Disciplined d) {rule : LeadingRule} (h : Enters base start cursor)
    (hrule : standard.leading cursor.current.kind = some rule) :
    Keeps base start (d.lead rule cursor) := by
  have hthrough := h.through (Syntax.Ruled.leading hrule).ne
  cases rule with
  | literal => exact literal hthrough hrule
  | operator =>
    exact ensures_operator.2
      ((hd.expr .unary base start _ hthrough.enters).imp fun _ _ hmoved => hmoved)
  | group => exact hd.group hthrough
  | conditional => exact hd.conditional hthrough
  | function => exact hd.function hthrough

theorem argumentList (hd : Disciplined d) (h : Through base start cursor) :
    Keeps base start (d.argumentList cursor) := by
  refine ensures_argumentList.2 ⟨fun hclose => h.step hclose (by decide), fun _ => ?_⟩
  apply (hd.expr .default base start _ h.enters).imp
  intro first one hone
  apply (hd.arguments base start one hone).imp
  intro others moved hothers
  exact ⟨fun hclose => hothers.step hclose (by decide), fun hne => hothers.breaks hne⟩

theorem trail (hd : Disciplined d) {floor power : BindingPower} {rule : TrailingRule}
    {left : Expr} (h : Through base start cursor)
    (hrule : standard.continuation floor cursor.peek.kind = some (power, rule)) :
    Keeps base start (d.trail left power rule cursor.advance) := by
  have htrailing := (continuation_eq_some.1 hrule).1
  have hthrough := h.step rfl (Syntax.Ruled.trailing htrailing).ne
  rcases Syntax.trailing_cases htrailing with ⟨_, _, _, _, rfl⟩ | ⟨_, _, rfl⟩
  · exact ensures_binary.2
      ((hd.expr power base start _ hthrough.enters).imp fun _ _ hmoved => hmoved)
  · exact ensures_call.2 ((hd.argumentList hthrough).imp fun _ _ hmoved => hmoved)

/-! ## One step -/

theorem exprStep (hd : Disciplined d) (floor : BindingPower) (h : Enters base start cursor) :
    Keeps base start (exprStep standard d floor cursor) := by
  refine ensures_exprStep.2 ⟨fun rule hrule => ?_, fun hnone => ?_⟩
  · exact (hd.lead h hrule).imp fun left moved hleft => hd.chain floor left base start moved hleft
  · exact ⟨h.stays, .inl ⟨⟨rfl, rfl, rfl, hnone⟩, fun _ => rfl⟩⟩

theorem chainStep (hd : Disciplined d) (floor : BindingPower) (left : Expr)
    (h : Through base start cursor) :
    Keeps base start (chainStep standard d floor left cursor) := by
  refine ensures_chainStep.2 ⟨fun power rule hrule => ?_, fun _ => h⟩
  exact (hd.trail h hrule).imp fun longer moved hlonger =>
    hd.chain floor longer base start moved hlonger

theorem expression (hd : Disciplined d) (h : Enters base start cursor) :
    Finishes base start (d.expression cursor) :=
  ensures_expression.2 ((hd.expr .default base start cursor h).imp fun _ _ hvalue => hvalue.ends)

theorem binding (hd : Disciplined d) (h : Through base start cursor) :
    Finishes base start (d.binding cursor) := by
  refine ensures_binding.2 ⟨fun hname => ?_, fun hne => h.breaks hne⟩
  have hnamed := h.step hname (by decide)
  refine ⟨fun hsign => ?_, fun hne => hnamed.breaks hne⟩
  have hsigned := hnamed.step hsign (by decide)
  exact (hd.expr .default base start _ hsigned.enters).imp fun value moved hvalue => hvalue.ends

theorem result (hd : Disciplined d) (h : Through base start cursor) :
    Finishes base start (d.result cursor) := by
  refine ensures_result.2 ⟨fun _ => h.ends, fun _ => ?_⟩
  exact (hd.expr .default base start _ h.enters).imp fun value moved hvalue => hvalue.ends

theorem stmtStep (hd : Disciplined d) (h : Enters base start cursor) :
    Finishes base start (stmtStep standard d cursor) := by
  refine ensures_stmtStep.2 ⟨fun rule hrule => ?_, fun _ => hd.expression h⟩
  have hthrough := h.through (Syntax.Ruled.statement hrule).ne
  rcases Syntax.statement_cases hrule with ⟨_, rfl⟩ | ⟨_, rfl⟩
  · exact hd.binding hthrough
  · exact hd.result hthrough

/-- The statements of a block begin with one more brace open than the statement
that holds the block, so the semicolons that end them are inside of it. -/
theorem stmtsStep (hd : Disciplined d) (hstays : Stays base start cursor)
    (hopens : Opens (base + 1) cursor) :
    Keeps base start (stmtsStep d cursor) := by
  refine ensures_stmtsStep.2 ⟨fun hclose => ?_, fun heof => ?_, fun _ hne => ?_⟩
  · have hdepth : cursor.depth = base := by
      rw [hopens, hclose]
      rfl
    refine ⟨hstays, ⟨TokenKind.ne_eof_of_eq hclose (by decide), Nat.le_of_eq hdepth.symm,
      fun hkind => ?_⟩, hdepth⟩
    rw [hclose] at hkind
    cases hkind
  · exact ⟨hstays, .inl ⟨blames_unexpected (by rw [heof]; decide), fun hne => absurd heof hne⟩⟩
  · have hfirst := hd.stmt (base + 1) cursor cursor ⟨.here _ _, hopens⟩
    refine hfirst.mono id (fun first moved hends => ?_) fun _ _ => Breaks.of_succ hstays
    have hlt : base < moved.depth := by
      rw [hends.depth_eq]
      exact Nat.lt_succ_self base
    have hinside : Inside base moved := ⟨hends.ne_eof, Nat.le_of_lt hlt, fun _ => hlt⟩
    have hmore : Stays base start moved.advance :=
      (hstays.trans hends.stays.of_succ).advance hinside
    exact (hd.stmts base start moved.advance hmore (opens_advance hends.depth_eq)).imp
      fun others last hlast => hlast

theorem parametersStep (hd : Disciplined d) (h : Through base start cursor) :
    Keeps base start (parametersStep d cursor) := by
  refine ensures_parametersStep.2 ⟨fun hname => ?_, fun hne => h.breaks hne⟩
  have hnamed := h.step hname (by decide)
  refine ⟨fun hcomma => ?_, fun _ => hnamed⟩
  have hnext := hnamed.step hcomma (by decide)
  exact (hd.parameters base start _ hnext).imp fun others moved hothers => hothers

theorem argumentsStep (hd : Disciplined d) (h : Through base start cursor) :
    Keeps base start (argumentsStep d cursor) := by
  refine ensures_argumentsStep.2 ⟨fun hcomma => ?_, fun _ => h⟩
  apply (hd.expr .default base start _ (h.step hcomma (by decide)).enters).imp
  intro argument one hone
  exact (hd.arguments base start one hone).imp fun others moved hothers => hothers

theorem step (hd : Disciplined d) : Disciplined (Descent.step standard d) where
  expr floor _ _ _ h := hd.exprStep floor h
  chain floor left _ _ _ h := hd.chainStep floor left h
  stmt _ _ _ h := hd.stmtStep h
  stmts _ _ _ hstays hopens := hd.stmtsStep hstays hopens
  parameters _ _ _ h := hd.parametersStep h
  arguments _ _ _ h := hd.argumentsStep h

end Disciplined

/-- The parser stays inside the statement that it reads. -/
theorem descent_disciplined (fuel : Nat) : Disciplined (descent standard fuel : Descent σ) := by
  induction fuel with
  | zero => constructor <;> intros <;> trivial
  | succ fuel ih =>
    rw [descent_succ]
    exact ih.step

theorem reader_disciplined : Disciplined (reader standard : Descent σ) where
  expr floor base start cursor :=
    (descent_disciplined cursor.fuel).expr floor base start cursor
  chain floor left base start cursor :=
    (descent_disciplined cursor.fuel).chain floor left base start cursor
  stmt base start cursor := (descent_disciplined cursor.fuel).stmt base start cursor
  stmts base start cursor := (descent_disciplined cursor.fuel).stmts base start cursor
  parameters base start cursor := (descent_disciplined cursor.fuel).parameters base start cursor
  arguments base start cursor := (descent_disciplined cursor.fuel).arguments base start cursor

end BraceLang.Recovery
