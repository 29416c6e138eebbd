import BraceLang.Parser.Session
import BraceLang.Proofs.Parser.Simulation

/-!
# What holds of every session

A session may give rules to any kinds of tokens but one: an expression that can
begin or go on with an end token has no end (`Request.SparesEnd`).  Whatever else it
asks for, and wherever it leaves the cursor:

* each request is answered (`Parser.Answers`), since no request takes away that the
  grammar stops at the end (`Parser.stopsAtEnd_afterAll`);
* reading a program takes what is left of the source (`Parser.Finishes`).  Each turn
  takes a token (`exists_skip_of_turn?`), so that there are no more statements and
  diagnostics than tokens, and after the last turn there is nothing to read.
-/

namespace BraceLang

variable {σ : Type} [TokenSource σ]

/-! ## Rules for the end token -/

/-- The request lets no expression begin or go on with an end token. -/
def Request.SparesEnd : Request → Prop
  | .registerLeading kind _ => kind ≠ .eof
  | .registerTrailing kind _ _ => kind ≠ .eof
  | _ => True

namespace Grammar.StopsAtEnd

variable {grammar : Grammar} {kind : TokenKind}

theorem withLeading (hg : grammar.StopsAtEnd) (h : kind ≠ .eof) (rule : LeadingRule) :
    (grammar.withLeading kind rule).StopsAtEnd :=
  ⟨(if_neg h.symm).trans hg.leading_eof, hg.trailing_eof⟩

theorem withTrailing (hg : grammar.StopsAtEnd) (h : kind ≠ .eof) (power : BindingPower)
    (rule : TrailingRule) : (grammar.withTrailing kind power rule).StopsAtEnd :=
  ⟨hg.leading_eof, (if_neg h.symm).trans hg.trailing_eof⟩

theorem withStatement (hg : grammar.StopsAtEnd) (kind : TokenKind) (rule : StatementRule) :
    (grammar.withStatement kind rule).StopsAtEnd :=
  ⟨hg.leading_eof, hg.trailing_eof⟩

/-- The standard grammar has no rules for the end token. -/
theorem withStandard (hg : grammar.StopsAtEnd) : grammar.withStandard.StopsAtEnd :=
  ⟨hg.leading_eof, hg.trailing_eof⟩

end Grammar.StopsAtEnd

/-- The rules after a request. -/
def Request.rules (grammar : Grammar) : Request → Grammar
  | .registerLeading kind rule => grammar.withLeading kind rule
  | .registerTrailing kind power rule => grammar.withTrailing kind power rule
  | .registerStatement kind rule => grammar.withStatement kind rule
  | .registerStandard => grammar.withStandard
  | _ => grammar

theorem Grammar.StopsAtEnd.rules {grammar : Grammar} {request : Request}
    (hg : grammar.StopsAtEnd) (h : request.SparesEnd) : (request.rules grammar).StopsAtEnd := by
  cases request with
  | registerLeading kind rule => exact hg.withLeading h rule
  | registerTrailing kind power rule => exact hg.withTrailing h power rule
  | registerStatement kind rule => exact hg.withStatement kind rule
  | registerStandard => exact hg.withStandard
  | _ => exact hg

namespace Parser

variable {parser : Parser σ} {request : Request} {requests : List Request}

/-- Running an action leaves the rules as they are. -/
theorem grammar_after_of_run {α : Type} (action : Action σ α) (reply : α → Reply)
    (h : parser.perform request = (parser.run action).map reply) :
    (parser.after request).grammar = parser.grammar := by
  unfold after
  rw [h, run]
  cases action parser.cursor <;> rfl

/-- Only registrations change the rules. -/
theorem grammar_after (parser : Parser σ) (request : Request) :
    (parser.after request).grammar = request.rules parser.grammar := by
  cases request with
  | expect kind construct =>
    exact grammar_after_of_run (Action.expect kind construct) .token rfl
  | parseExpr entry => exact grammar_after_of_run (entry.action parser.descent) .expr rfl
  | parseStmt entry => exact grammar_after_of_run (entry.action parser.descent) .stmt rfl
  | parseBlock => exact grammar_after_of_run parser.descent.block .block rfl
  | _ => rfl

/-- What holds of the rules, and is not taken away by any request, holds after the session. -/
theorem grammar_afterAll {P : Grammar → Prop} {Q : Request → Prop}
    (hrules : ∀ grammar request, P grammar → Q request → P (request.rules grammar))
    (hP : P parser.grammar) (hQ : ∀ request ∈ requests, Q request) :
    P (parser.afterAll requests).grammar := by
  induction requests generalizing parser with
  | nil => exact hP
  | cons request requests ih =>
    obtain ⟨hfirst, hothers⟩ := List.forall_mem_cons.1 hQ
    have hafter : P (parser.after request).grammar := by
      rw [grammar_after]
      exact hrules _ _ hP hfirst
    exact ih hafter hothers

theorem stopsAtEnd_after (hg : parser.grammar.StopsAtEnd) (h : request.SparesEnd) :
    (parser.after request).grammar.StopsAtEnd := by
  rw [grammar_after]
  exact hg.rules h

theorem stopsAtEnd_afterAll (hg : parser.grammar.StopsAtEnd)
    (h : ∀ request ∈ requests, request.SparesEnd) :
    (parser.afterAll requests).grammar.StopsAtEnd :=
  grammar_afterAll (fun _ _ => Grammar.StopsAtEnd.rules) hg h

/-! ## Answers -/

/-- Whatever the parser is asked for, it answers; and so do the parts of a construct
that cannot be asked for by themselves. -/
structure Answers (parser : Parser σ) : Prop where
  request : ∀ request, parser.perform request ≠ .exhausted
  parameterList : parser.run parser.descent.parameterList ≠ .exhausted
  argumentList : parser.run parser.descent.argumentList ≠ .exhausted

theorem run_ne_exhausted {α : Type} {action : Action σ α}
    (h : parser.cursor.Answered (action parser.cursor)) : parser.run action ≠ .exhausted := by
  have hne := h.ne_exhausted
  unfold run
  intro hstop
  cases houtcome : action parser.cursor with
  | ok value moved =>
    rw [houtcome] at hstop
    cases hstop
  | fail diagnostic moved =>
    rw [houtcome] at hstop
    cases hstop
  | exhausted => exact hne houtcome

theorem map_ne_exhausted {α β τ : Type} {outcome : Outcome τ α} (f : α → β)
    (h : outcome ≠ .exhausted) : outcome.map f ≠ .exhausted := by
  cases outcome with
  | ok value state => exact fun hstop => by cases hstop
  | fail diagnostic state => exact fun hstop => by cases hstop
  | exhausted => exact absurd rfl h

theorem answered_expr (hg : parser.grammar.StopsAtEnd) (entry : ExprEntry) :
    parser.cursor.Answered (entry.action parser.descent parser.cursor) := by
  have hsuffices : parser.descent.Suffices _ := descent_suffices hg parser.cursor.fuel
  have hfuel := parser.cursor.fuel_eq
  cases entry with
  | expr floor => exact hsuffices.expr floor parser.cursor (by omega)
  | lead rule => exact hsuffices.lead rule (by omega) (by omega)
  | trail left power rule => exact hsuffices.trail left power rule (by omega) (by omega)

theorem answered_stmt (hg : parser.grammar.StopsAtEnd) (entry : StmtEntry) :
    parser.cursor.Answered (entry.action parser.descent parser.cursor) := by
  have hsuffices : parser.descent.Suffices _ := descent_suffices hg parser.cursor.fuel
  have hfuel := parser.cursor.fuel_eq
  cases entry with
  | stmt => exact hsuffices.stmt parser.cursor (by omega)
  | statement rule => exact hsuffices.statement rule (by omega)

/-- A parser whose grammar stops at the end answers. -/
theorem answers (hg : parser.grammar.StopsAtEnd) : parser.Answers := by
  have hsuffices : parser.descent.Suffices _ := descent_suffices hg parser.cursor.fuel
  have hfuel := parser.cursor.fuel_eq
  refine ⟨fun request => ?_, run_ne_exhausted (hsuffices.parameterList (by omega)),
    run_ne_exhausted (hsuffices.argumentList (by omega) (by omega))⟩
  cases request with
  | advance | skipOptional | registerLeading | registerTrailing | registerStatement
  | registerStandard | parseProgram => exact fun hstop => by cases hstop
  | expect kind construct =>
    refine map_ne_exhausted _ fun hstop => ?_
    unfold expect run Action.expect at hstop
    split at hstop <;> cases hstop
  | parseExpr entry => exact map_ne_exhausted _ (run_ne_exhausted (answered_expr hg entry))
  | parseStmt entry => exact map_ne_exhausted _ (run_ne_exhausted (answered_stmt hg entry))
  | parseBlock =>
    exact map_ne_exhausted _ (run_ne_exhausted (hsuffices.block (by omega) (by omega)))

end Parser

/-! ## Turns -/

section Turns

variable {grammar : Grammar} {cursor moved : Cursor σ}

/-- A turn ends ahead of where it began. -/
theorem exists_skip_of_turn? {item : Item} (h : turn? grammar cursor = some (item, moved)) :
    ∃ count, moved = cursor.skip (count + 1) := by
  let p : Comparison σ σ := ⟨.none, grammar, grammar, cursor, cursor⟩
  have hmirrors := (p.descent_parallel cursor.fuel).stmt 0 0 (Nat.zero_le _)
  rw [show p.start.skip 0 = cursor from rfl] at hmirrors
  unfold turn? at h
  cases hstmt : (descent grammar cursor.fuel).stmt cursor with
  | ok statement last =>
    rw [show (descent p.grammar cursor.fuel).stmt cursor = _ from hstmt] at hmirrors
    rw [hstmt] at h
    cases h
    obtain ⟨place, _, rfl, _⟩ := hmirrors
    exact ⟨place, rfl⟩
  | fail diagnostic last =>
    rw [show (descent p.grammar cursor.fuel).stmt cursor = _ from hstmt] at hmirrors
    rw [hstmt] at h
    cases h
    obtain ⟨place, _, rfl, _⟩ := hmirrors
    obtain ⟨stop, _, hstop, _⟩ := p.synchronize_skip cursor.outerDepth place rfl
    exact ⟨stop, congrArg Cursor.advance hstop⟩
  | exhausted =>
    rw [hstmt] at h
    cases h

/-- The turns end at the end, and each of them takes a token. -/
theorem items_finish (hg : grammar.StopsAtEnd) (cursor : Cursor σ) :
    (items grammar cursor).2.current.kind = .eof ∧
      (items grammar cursor).1.length ≤ cursor.rest.length := by
  by_cases heof : cursor.current.kind = .eof
  · rw [items_of_eof heof]
    exact ⟨heof, Nat.zero_le _⟩
  · obtain ⟨item, moved, hturn⟩ : ∃ item moved, turn? grammar cursor = some (item, moved) := by
      rcases stmt_ok_or_fail hg cursor with ⟨_, _, hstmt⟩ | ⟨_, _, hstmt⟩
      · exact ⟨_, _, turn?_of_ok hstmt⟩
      · exact ⟨_, _, turn?_of_fail hstmt⟩
    have hlt := remaining_lt_of_turn? hg heof hturn
    obtain ⟨hend, hcount⟩ := items_finish hg moved
    rw [items_of_turn? hg heof hturn]
    refine ⟨hend, ?_⟩
    obtain ⟨count, rfl⟩ := exists_skip_of_turn? hturn
    have hpos : 0 < cursor.rest.length := by
      rw [Cursor.rest_of_ne_eof heof]
      exact Nat.succ_pos _
    rw [Cursor.rest_skip, List.length_drop] at hcount
    rw [List.length_cons]
    omega
termination_by cursor.remaining

/-- Every item is a statement or a diagnostic. -/
theorem length_statementsOf_add_length_diagnosticsOf (items : List Item) :
    (statementsOf items).length + (diagnosticsOf items).length = items.length := by
  induction items with
  | nil => rfl
  | cons item items ih =>
    cases item with
    | ok statement =>
      show (statementsOf items).length + 1 + (diagnosticsOf items).length = items.length + 1
      omega
    | error diagnostic =>
      show (statementsOf items).length + ((diagnosticsOf items).length + 1) = items.length + 1
      omega

end Turns

namespace Parser

variable {parser : Parser σ}

/-- The parser has read `program`, and then it is `finished`: nothing is left, and
reading again gives nothing.  Diagnostics are added to those that were there.  No
token that was left counts for two statements or diagnostics. -/
structure Finishes (parser : Parser σ) (program : Program) (finished : Parser σ) : Prop where
  at_end : finished.current.kind = .eof
  diagnostics : ∃ new, finished.diagnostics.entries = parser.diagnostics.entries ++ new ∧
    program.statements.length + new.length ≤ parser.cursor.rest.length
  again : finished.parseProgram = (⟨[]⟩, finished)

theorem parseProgram_of_eof (h : parser.current.kind = .eof) :
    parser.parseProgram = (⟨[]⟩, parser) := by
  unfold parseProgram
  rw [items_of_eof h]
  show ((⟨[]⟩ : Program), { parser with diagnostics := ⟨parser.diagnostics.entries ++ []⟩ }) = _
  rw [List.append_nil]

theorem finishes (hg : parser.grammar.StopsAtEnd) :
    parser.Finishes parser.parseProgram.1 parser.parseProgram.2 := by
  obtain ⟨hend, hcount⟩ := items_finish hg parser.cursor
  refine ⟨hend, ⟨_, rfl, ?_⟩, parseProgram_of_eof hend⟩
  exact Nat.le_trans (Nat.le_of_eq (length_statementsOf_add_length_diagnosticsOf _)) hcount

/-- After any session that gives the end token no rule, the parser answers whatever it
is asked for, and reading a program finishes. -/
theorem afterAll_progress (source : σ) (requests : List Request)
    (h : ∀ request ∈ requests, request.SparesEnd) :
    let parser := (Parser.start source).afterAll requests
    parser.Answers ∧ parser.Finishes parser.parseProgram.1 parser.parseProgram.2 := by
  intro parser
  have hg : parser.grammar.StopsAtEnd :=
    stopsAtEnd_afterAll Grammar.standard_stopsAtEnd h
  exact ⟨answers hg, finishes hg⟩

/-- A comma that calls, a semicolon that begins expressions, and a closing brace that
begins a binding do no harm. -/
theorem afterAll_progress_rules :
    let place : Span := ⟨⟨0, "rules"⟩, ⟨0, "rules"⟩⟩
    let tokens : List Token := [⟨.semicolon, ";", place⟩, ⟨.comma, ",", place⟩,
      ⟨.closeCurly, "\x7d", place⟩]
    let requests : List Request := [.registerTrailing .comma .call .call,
      .registerLeading .semicolon .operator, .registerStatement .closeCurly .binding,
      .parseExpr (.lead .group), .advance]
    (∀ request ∈ requests, request.SparesEnd) ∧
      let parser := (Parser.start (TokenBuffer.ofList tokens)).afterAll requests
      parser.Answers ∧ parser.Finishes parser.parseProgram.1 parser.parseProgram.2 := by
  intro place tokens requests
  have hspare : ∀ request ∈ requests, request.SparesEnd := by
    simp [requests, Request.SparesEnd]
  exact ⟨hspare, afterAll_progress (TokenBuffer.ofList tokens) requests hspare⟩

end Parser

end BraceLang
