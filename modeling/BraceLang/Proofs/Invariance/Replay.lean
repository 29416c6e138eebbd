import BraceLang.Proofs.Parser.Sessions
import BraceLang.Proofs.Parser.Settled
import BraceLang.Proofs.Syntax.Program

/-!
# Tokens replayed

A source that gives its tokens one by one and a buffer of the same tokens have
different states, and bound what is left of them differently.  No session with a
parser tells them apart, by whatever rules it makes the parser read, and whether the
parser answers or not (`transcript_replay`).

* Cursors are `Alike` if the same tokens are left and as many braces are open.  Then
  they see the same, and they stay alike if both are moved (`Cursor.Alike.skip`).
* Each action does the same at two cursors that are alike (`Outcome.Alike`).  For the
  entry points this is `Comparison.descent_parallel`, once in each direction, with fuel
  that is enough for both cursors: more of it changes nothing (`ExprEntry.settled`).
* So each request does the same (`Parser.Alike.perform`), and by induction every list of
  requests (`Parser.Alike.transcript`).
-/

namespace BraceLang

open Syntax

variable {σ τ : Type} [TokenSource σ] [TokenSource τ] {cursor : Cursor σ} {cursor' : Cursor τ}
  {α β : Type}

/-! ## Cursors -/

/-- The same tokens are left from both cursors on, and as many braces are open. -/
structure Cursor.Alike (cursor : Cursor σ) (cursor' : Cursor τ) : Prop where
  rest_eq : cursor.rest = cursor'.rest
  last_eq : cursor.last = cursor'.last
  depth_eq : cursor.depth = cursor'.depth

namespace Cursor.Alike

theorem swap (h : cursor.Alike cursor') : cursor'.Alike cursor :=
  ⟨h.rest_eq.symm, h.last_eq.symm, h.depth_eq.symm⟩

theorem agree (h : cursor.Alike cursor') (grammar : Grammar) (count : Nat) :
    (Comparison.strict grammar cursor cursor').Agree count :=
  agree_of_rest_eq .none grammar h.rest_eq h.last_eq count

theorem skip (h : cursor.Alike cursor') (count : Nat) :
    (cursor.skip count).Alike (cursor'.skip count) where
  rest_eq := by rw [rest_skip, rest_skip, h.rest_eq]
  last_eq := by rw [last_skip, last_skip, h.last_eq]
  depth_eq := Comparison.depth_skip (p := .strict .standard cursor cursor') h.depth_eq
    (h.agree .standard _)

theorem current_eq (h : cursor.Alike cursor') : cursor.current = cursor'.current := by
  rw [← headD_rest cursor, ← headD_rest cursor', h.rest_eq, h.last_eq]

theorem advance (h : cursor.Alike cursor') : cursor.advance.Alike cursor'.advance := h.skip 1

theorem peek_eq (h : cursor.Alike cursor') : cursor.peek = cursor'.peek := h.advance.current_eq

theorem outerDepth_eq (h : cursor.Alike cursor') : cursor.outerDepth = cursor'.outerDepth := by
  rw [outerDepth, outerDepth, h.current_eq, h.depth_eq]

theorem skipOptional (h : cursor.Alike cursor') (kind : TokenKind) :
    (cursor.skipOptional kind).Alike (cursor'.skipOptional kind) := by
  unfold Cursor.skipOptional
  rw [h.peek_eq]
  split
  · exact h.advance
  · exact h

theorem synchronize (h : cursor.Alike cursor') (base : Nat) :
    (cursor.synchronize base).Alike (cursor'.synchronize base) := by
  obtain ⟨stop, count, hstop, _, _, _, _, hstop'⟩ :=
    (Comparison.strict .standard cursor cursor').synchronize_skip base 0 h.depth_eq
  have hhere : cursor.synchronize base = cursor.skip stop := hstop
  have hthere : cursor'.synchronize base = cursor'.skip stop := hstop' (h.agree .standard count)
  rw [hhere, hthere]
  exact h.skip stop

end Cursor.Alike

/-- From first tokens on, two sources are alike if the same tokens are left. -/
theorem Cursor.Alike.start {source : σ} {source' : τ}
    (hrest : (Cursor.start source).rest = (Cursor.start source').rest)
    (hlast : (Cursor.start source).last = (Cursor.start source').last) :
    (Cursor.start source).Alike (Cursor.start source') := by
  have hcurrent : (Cursor.start source).current = (Cursor.start source').current := by
    rw [← headD_rest, ← headD_rest, hrest, hlast]
  exact ⟨hrest, hlast, congrArg (fun token : Token => depthAfter 0 token.kind) hcurrent⟩

/-- Whatever source gives the tokens, a buffer of them gives them again. -/
theorem start_replay (source : σ) :
    (Cursor.start source).Alike
      (Cursor.start (TokenBuffer.ofList (TokenSource.tokens source))) := by
  have htokens := Cursor.rest_append_last_start source
  have hlast := (Cursor.start source).last_kind
  have hrest : ∀ token ∈ (Cursor.start source).rest, token.kind ≠ .eof :=
    fun _ => Cursor.kind_ne_eof_of_mem_rest
  apply Cursor.Alike.start
  · rw [rest_start_ofList, ← htokens, takeWhile_append hrest]
    simp [hlast]
  · rw [last_start_ofList, ← htokens, endOf_append hrest (by simp)]
    simp [TokenBuffer.endOf, hlast]

/-! ## Outcomes -/

/-- The outcomes are the same, in states that `R` relates. -/
inductive Outcome.Alike {σ τ : Type} (R : σ → τ → Prop) : Outcome σ α → Outcome τ α → Prop where
  | ok (value : α) {state : σ} {state' : τ} (h : R state state') :
      Alike R (.ok value state) (.ok value state')
  | fail (diagnostic : Diagnostic) {state : σ} {state' : τ} (h : R state state') :
      Alike R (.fail diagnostic state) (.fail diagnostic state')
  | exhausted : Alike R .exhausted .exhausted

theorem Outcome.Alike.map {σ τ : Type} {R : σ → τ → Prop} {outcome : Outcome σ α}
    {outcome' : Outcome τ α} (h : outcome.Alike R outcome') (f : α → β) :
    (outcome.map f).Alike R (outcome'.map f) := by
  cases h with
  | ok value h => exact .ok (f value) h
  | fail diagnostic h => exact .fail diagnostic h
  | exhausted => exact .exhausted

/-- Readings that mirror each other, in both directions, are the same if the cursors are
alike. -/
theorem Cursor.Alike.of_mirrors (h : cursor.Alike cursor') {grammar : Grammar} {keep : α → α}
    {reach : Nat} {outcome : Outcome (Cursor σ) α} {outcome' : Outcome (Cursor τ) α}
    (hkeep : ∀ value, keep value = value)
    (hmirrors : (Comparison.strict grammar cursor cursor').Mirrors reach 0 keep outcome outcome')
    (hmirrors' : (Comparison.strict grammar cursor' cursor).Mirrors reach 0 keep outcome' outcome) :
    outcome.Alike Cursor.Alike outcome' := by
  cases outcome with
  | ok value moved =>
    obtain ⟨place, count, rfl, _, _, hsame⟩ := hmirrors
    obtain ⟨value', rfl, hvalue⟩ := hsame (h.agree grammar count)
    obtain rfl : value = value' := (hkeep value).symm.trans (hvalue.trans (hkeep value'))
    exact .ok value (h.skip place)
  | fail diagnostic moved =>
    obtain ⟨place, count, rfl, _, _, hsame⟩ := hmirrors
    obtain ⟨diagnostic', rfl, hdiagnostic⟩ := hsame (h.agree grammar count)
    obtain rfl : diagnostic = diagnostic' :=
      diagnostic.erase_none.symm.trans (hdiagnostic.trans diagnostic'.erase_none)
    exact .fail diagnostic (h.skip place)
  | exhausted =>
    -- The first reading says nothing where it stops, so the second one has to.
    cases outcome' with
    | ok value' moved' =>
      obtain ⟨_, count, _, _, _, hsame⟩ := hmirrors'
      obtain ⟨_, hstop, _⟩ := hsame (h.swap.agree grammar count)
      cases hstop
    | fail diagnostic' moved' =>
      obtain ⟨_, count, _, _, _, hsame⟩ := hmirrors'
      obtain ⟨_, hstop, _⟩ := hsame (h.swap.agree grammar count)
      cases hstop
    | exhausted => exact .exhausted

/-! ## Entry points -/

namespace Cursor.Alike

variable (grammar : Grammar)

theorem exprEntry (h : cursor.Alike cursor') (entry : ExprEntry) :
    (entry.action (descent grammar cursor.fuel) cursor).Alike Cursor.Alike
      (entry.action (descent grammar cursor'.fuel) cursor') := by
  rw [← entry.settled grammar cursor (Nat.le_max_left cursor.fuel cursor'.fuel),
    ← entry.settled grammar cursor' (Nat.le_max_right cursor.fuel cursor'.fuel)]
  exact h.of_mirrors Expr.erase_none
    (((Comparison.strict grammar cursor cursor').descent_parallel _).exprEntry entry)
    (((Comparison.strict grammar cursor' cursor).descent_parallel _).exprEntry entry)

theorem stmtEntry (h : cursor.Alike cursor') (entry : StmtEntry) :
    (entry.action (descent grammar cursor.fuel) cursor).Alike Cursor.Alike
      (entry.action (descent grammar cursor'.fuel) cursor') := by
  rw [← entry.settled grammar cursor (Nat.le_max_left cursor.fuel cursor'.fuel),
    ← entry.settled grammar cursor' (Nat.le_max_right cursor.fuel cursor'.fuel)]
  exact h.of_mirrors Stmt.erase_none
    (((Comparison.strict grammar cursor cursor').descent_parallel _).stmtEntry entry)
    (((Comparison.strict grammar cursor' cursor).descent_parallel _).stmtEntry entry)

theorem block (h : cursor.Alike cursor') :
    ((descent grammar cursor.fuel).block cursor).Alike Cursor.Alike
      ((descent grammar cursor'.fuel).block cursor') := by
  rw [← block_settled grammar cursor (Nat.le_max_left cursor.fuel cursor'.fuel),
    ← block_settled grammar cursor' (Nat.le_max_right cursor.fuel cursor'.fuel)]
  exact h.of_mirrors Block.erase_none
    (((Comparison.strict grammar cursor cursor').descent_parallel _).blockEntry)
    (((Comparison.strict grammar cursor' cursor).descent_parallel _).blockEntry)

theorem expect (h : cursor.Alike cursor') (kind : TokenKind) (construct : String) :
    (Action.expect kind construct cursor).Alike Cursor.Alike
      (Action.expect kind construct cursor') := by
  unfold Action.expect
  rw [h.peek_eq]
  split
  · exact .ok _ h.advance
  · exact .fail _ h

/-! ## Turns -/

/-- A turn gives the same, or is none. -/
theorem turn? (h : cursor.Alike cursor') :
    (turn? grammar cursor = none ∧ turn? grammar cursor' = none) ∨
      ∃ item moved moved', turn? grammar cursor = some (item, moved) ∧
        turn? grammar cursor' = some (item, moved') ∧ moved.Alike moved' := by
  have hstmt := h.stmtEntry grammar .stmt
  simp only [StmtEntry.action] at hstmt
  unfold BraceLang.turn?
  rw [← h.outerDepth_eq]
  generalize (descent grammar cursor.fuel).stmt cursor = outcome at hstmt
  generalize (descent grammar cursor'.fuel).stmt cursor' = outcome' at hstmt
  cases hstmt with
  | ok statement hmoved => exact .inr ⟨_, _, _, rfl, rfl, hmoved.advance⟩
  | fail diagnostic hmoved => exact .inr ⟨_, _, _, rfl, rfl, (hmoved.synchronize _).advance⟩
  | exhausted => exact .inl ⟨rfl, rfl⟩

/-- The turns give the same, each with its own bound on them. -/
theorem itemsWithin (count count' : Nat) (h : cursor.Alike cursor')
    (hcount : cursor.remaining ≤ count) (hcount' : cursor'.remaining ≤ count') :
    (itemsWithin grammar count cursor).1 = (itemsWithin grammar count' cursor').1 ∧
      (itemsWithin grammar count cursor).2.Alike (itemsWithin grammar count' cursor').2 := by
  induction count generalizing count' cursor cursor' with
  | zero =>
    have heof : cursor.current.kind = .eof := Decidable.byContradiction fun hne =>
      Nat.not_lt.2 hcount (Cursor.remaining_pos hne)
    have heof' : cursor'.current.kind = .eof := h.current_eq ▸ heof
    rw [itemsWithin_of_eof 0 heof, itemsWithin_of_eof count' heof']
    exact ⟨rfl, h⟩
  | succ count ih =>
    by_cases heof : cursor.current.kind = .eof
    · have heof' : cursor'.current.kind = .eof := h.current_eq ▸ heof
      rw [itemsWithin_of_eof (count + 1) heof, itemsWithin_of_eof count' heof']
      exact ⟨rfl, h⟩
    · have heof' : cursor'.current.kind ≠ .eof := h.current_eq ▸ heof
      -- What is left of the second source is bounded by itself, not by what is left of the first.
      have hpos' := Cursor.remaining_pos heof'
      obtain ⟨less, rfl⟩ : ∃ less, count' = less + 1 := ⟨count' - 1, by omega⟩
      rw [BraceLang.itemsWithin, BraceLang.itemsWithin, if_neg heof, if_neg heof']
      rcases h.turn? grammar with ⟨hnone, hnone'⟩ | ⟨item, moved, moved', hsome, hsome', hmoved⟩
      · rw [hnone, hnone']
        exact ⟨rfl, h⟩
      · rw [hsome, hsome']
        obtain ⟨place, rfl⟩ := exists_skip_of_turn? hsome
        obtain ⟨place', rfl⟩ := exists_skip_of_turn? hsome'
        have hlt := Cursor.remaining_skip_succ_lt heof place
        have hlt' := Cursor.remaining_skip_succ_lt heof' place'
        obtain ⟨hitems, hlast⟩ := ih less hmoved (by omega) (by omega)
        exact ⟨congrArg (item :: ·) hitems, hlast⟩

theorem items (h : cursor.Alike cursor') :
    (items grammar cursor).1 = (items grammar cursor').1 ∧
      (items grammar cursor).2.Alike (items grammar cursor').2 :=
  h.itemsWithin grammar cursor.remaining cursor'.remaining (Nat.le_refl _) (Nat.le_refl _)

end Cursor.Alike

/-! ## Parsers -/

/-- Parsers at cursors that are alike, with the same grammar and the same diagnostics so
far. -/
structure Parser.Alike (parser : Parser σ) (parser' : Parser τ) : Prop where
  cursor : parser.cursor.Alike parser'.cursor
  grammar : parser.grammar = parser'.grammar
  diagnostics : parser.diagnostics = parser'.diagnostics

/-- What a parser shows of itself. -/
structure Parser.View where
  current : Token
  peek : Token
  currentPower : BindingPower
  peekPower : BindingPower
  diagnostics : Diagnostics

/-- The tokens in view, their powers, and all that was found wrong so far. -/
def Parser.view (parser : Parser σ) : Parser.View :=
  ⟨parser.current, parser.peek, parser.currentPower, parser.peekPower, parser.diagnostics⟩

/-- The answer of an outcome, if there is one. -/
def Outcome.answer {σ : Type} : Outcome σ α → Option (Except Diagnostic α)
  | .ok value _ => some (.ok value)
  | .fail diagnostic _ => some (.error diagnostic)
  | .exhausted => none

/-- The answers of a session, each with what the parser shows after it. -/
def Parser.transcript (parser : Parser σ) :
    List Request → List (Option (Except Diagnostic Reply) × Parser.View)
  | [] => []
  | request :: requests =>
    ((parser.perform request).answer, (parser.after request).view) ::
      (parser.after request).transcript requests

namespace Parser

variable {parser : Parser σ} {parser' : Parser τ}

theorem Alike.view_eq (h : parser.Alike parser') : parser.view = parser'.view := by
  simp only [view, current, peek, currentPower, peekPower, h.cursor.current_eq, h.cursor.peek_eq,
    h.grammar, h.diagnostics]

theorem Alike.move (h : parser.Alike parser') {moved : Cursor σ} {moved' : Cursor τ}
    (hmoved : moved.Alike moved') :
    Alike { parser with cursor := moved } { parser' with cursor := moved' } :=
  ⟨hmoved, h.grammar, h.diagnostics⟩

theorem Alike.register (h : parser.Alike parser') (change : Grammar → Grammar) :
    Alike { parser with grammar := change parser.grammar }
      { parser' with grammar := change parser'.grammar } :=
  ⟨h.cursor, congrArg change h.grammar, h.diagnostics⟩

/-- Actions that do the same are run the same. -/
theorem Alike.run (h : parser.Alike parser') {action : Action σ α} {action' : Action τ α}
    (haction : (action parser.cursor).Alike Cursor.Alike (action' parser'.cursor)) :
    (parser.run action).Alike Parser.Alike (parser'.run action') := by
  unfold Parser.run
  generalize action parser.cursor = outcome at haction
  generalize action' parser'.cursor = outcome' at haction
  cases haction with
  | ok value hmoved => exact .ok value (h.move hmoved)
  | fail diagnostic hmoved => exact .fail diagnostic (h.move hmoved)
  | exhausted => exact .exhausted

theorem Alike.parseProgram (h : parser.Alike parser') :
    parser.parseProgram.1 = parser'.parseProgram.1 ∧
      parser.parseProgram.2.Alike parser'.parseProgram.2 := by
  obtain ⟨hitems, hmoved⟩ := h.cursor.items parser.grammar
  unfold Parser.parseProgram
  rw [← h.grammar]
  refine ⟨congrArg (fun read => Program.mk (statementsOf read)) hitems, hmoved, rfl, ?_⟩
  show parser.diagnostics.append _ = parser'.diagnostics.append _
  rw [h.diagnostics, hitems]

/-- What one request does. -/
theorem Alike.perform (h : parser.Alike parser') (request : Request) :
    (parser.perform request).Alike Parser.Alike (parser'.perform request) := by
  cases request with
  | advance => exact Outcome.Alike.ok Reply.done (h.move h.cursor.advance)
  | expect kind construct => exact (h.run (h.cursor.expect kind construct)).map Reply.token
  | skipOptional kind => exact Outcome.Alike.ok Reply.done (h.move (h.cursor.skipOptional kind))
  | registerLeading kind rule =>
    exact Outcome.Alike.ok Reply.done (h.register (·.withLeading kind rule))
  | registerTrailing kind power rule =>
    exact Outcome.Alike.ok Reply.done (h.register (·.withTrailing kind power rule))
  | registerStatement kind rule =>
    exact Outcome.Alike.ok Reply.done (h.register (·.withStatement kind rule))
  | registerStandard => exact Outcome.Alike.ok Reply.done (h.register Grammar.withStandard)
  | parseProgram =>
    obtain ⟨hprogram, hread⟩ := h.parseProgram
    show Outcome.Alike Parser.Alike (.ok (Reply.program parser.parseProgram.1) _) _
    rw [hprogram]
    exact Outcome.Alike.ok (Reply.program parser'.parseProgram.1) hread
  | parseExpr entry =>
    refine (h.run ?_).map Reply.expr
    rw [descent, descent, ← h.grammar]
    exact h.cursor.exprEntry parser.grammar entry
  | parseStmt entry =>
    refine (h.run ?_).map Reply.stmt
    rw [descent, descent, ← h.grammar]
    exact h.cursor.stmtEntry parser.grammar entry
  | parseBlock =>
    refine (h.run ?_).map Reply.block
    rw [descent, descent, ← h.grammar]
    exact h.cursor.block parser.grammar

theorem Alike.after (h : parser.Alike parser') (request : Request) :
    (parser.perform request).answer = (parser'.perform request).answer ∧
      (parser.after request).Alike (parser'.after request) := by
  have hperform := h.perform request
  unfold Parser.after
  generalize parser.perform request = outcome at hperform
  generalize parser'.perform request = outcome' at hperform
  cases hperform with
  | ok value hmoved => exact ⟨rfl, hmoved⟩
  | fail diagnostic hmoved => exact ⟨rfl, hmoved⟩
  | exhausted => exact ⟨rfl, h⟩

/-- What a session does. -/
theorem Alike.transcript (h : parser.Alike parser') (requests : List Request) :
    parser.transcript requests = parser'.transcript requests := by
  induction requests generalizing parser parser' with
  | nil => rfl
  | cons request requests ih =>
    obtain ⟨hanswer, hafter⟩ := h.after request
    rw [Parser.transcript, Parser.transcript, hanswer, hafter.view_eq, ih hafter]

end Parser

/-- Sources that are alike hold the same program. -/
theorem Cursor.Alike.parse_eq {source : σ} {source' : τ}
    (h : (Cursor.start source).Alike (Cursor.start source')) : parse source = parse source' := by
  have halike : (Parser.start source).Alike (Parser.start source') := ⟨h, rfl, rfl⟩
  obtain ⟨hprogram, hread⟩ := halike.parseProgram
  show ParseResult.mk (Parser.start source).parseProgram.1
    (Parser.start source).parseProgram.2.diagnostics = _
  rw [hprogram, hread.diagnostics]
  rfl

/-- A parser over a source and a parser over the tokens that this source gives are the same to
every session: they show the same at first, give the same answers, and show the same after each
of them.  So they read the same program. -/
theorem transcript_replay (source : String) (file : Option String) (requests : List Request) :
    let direct := Parser.start (Scanner.ofSource source file)
    let replayed := Parser.start (TokenBuffer.ofList (tokenize source file))
    direct.view = replayed.view ∧
      direct.transcript requests = replayed.transcript requests ∧
      parseSource source file = parseTokens (tokenize source file) := by
  intro direct replayed
  have halike : direct.Alike replayed :=
    ⟨start_replay (Scanner.ofSource source file), rfl, rfl⟩
  exact ⟨halike.view_eq, halike.transcript requests, halike.cursor.parse_eq⟩

end BraceLang
