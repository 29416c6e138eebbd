import BraceLang.Proofs.Parser.Sessions
import BraceLang.Proofs.Parser.Settled
import BraceLang.Proofs.Recovery.Segments

/-!
# The depth of a parser

However a parser is used, its depth is the number of braces that are open among the tokens
that it has taken, the current one included (`depth_afterAll`).  The rules may be any, requests
may fail, and the tokens may close braces that were never opened.

* `Counted source taken cursor` holds if `cursor` stands behind the tokens `taken` of `source`:
  these, the current one, the next one and what its own source gives are what `source` gives,
  none of them missing and none of them twice, and the depth is that of `taken` and the current
  token.
* An advance takes the current token (`Counted.advance`), and nothing else moves a cursor.  So
  each request leads some number of advances ahead (`Parser.exists_skip_after`), and so does
  each session.
* The same holds where a turn of a program begins (`Turns`).  There the depth of the statement
  is found, and an opening brace has been counted by then, so that it can be left out again.
-/

namespace BraceLang.Recovery

variable {σ : Type} [TokenSource σ] {source : σ} {taken : List Token} {cursor moved : Cursor σ}

/-! ## Tokens that are counted -/

/-- The cursor has taken some tokens of the source, each of them once, and its depth is theirs. -/
structure Counted (source : σ) (taken : List Token) (cursor : Cursor σ) : Prop where
  takes : ∀ count, TokenSource.take (count + taken.length + 2) source =
    taken ++ cursor.current :: cursor.peek :: TokenSource.take count cursor.source
  depth_eq : cursor.depth = braceDepth 0 (taken ++ [cursor.current])

theorem counted_start (source : σ) : Counted source [] (Cursor.start source) :=
  ⟨fun _ => rfl, (braceDepth_concat 0 [] _).symm⟩

theorem Counted.advance (h : Counted source taken cursor) :
    Counted source (taken ++ [cursor.current]) cursor.advance where
  takes count := by
    have htakes := h.takes (count + 1)
    rw [List.length_append, List.length_singleton, ← Nat.add_assoc, List.append_assoc]
    rw [Nat.add_right_comm count 1] at htakes
    exact htakes
  depth_eq := by
    rw [braceDepth_concat, ← h.depth_eq]
    rfl

/-- All that advances lead to is counted. -/
theorem exists_counted_skip (source : σ) (count : Nat) :
    ∃ taken, Counted source taken ((Cursor.start source).skip count) := by
  induction count with
  | zero => exact ⟨[], counted_start source⟩
  | succ count ih =>
    obtain ⟨taken, hcounted⟩ := ih
    exact ⟨_, hcounted.advance⟩

/-- An opening brace is counted, and it is the one brace by which the depth around it is
less. -/
theorem Counted.depth_of_openCurly (h : Counted source taken cursor)
    (hkind : cursor.current.kind = .openCurly) :
    cursor.depth = braceDepth 0 taken + 1 ∧ cursor.outerDepth = braceDepth 0 taken := by
  have hdepth : cursor.depth = braceDepth 0 taken + 1 := by
    rw [h.depth_eq, braceDepth_concat, hkind]
    rfl
  refine ⟨hdepth, ?_⟩
  rw [Cursor.outerDepth, if_pos hkind, hdepth, Nat.add_sub_cancel]

/-! ## Requests move ahead -/

theorem leads_expect (kind : TokenKind) (construct : String) (cursor : Cursor σ) :
    cursor.Leads (Action.expect kind construct cursor) :=
  (Action.ensures_expect kind construct cursor).2 ⟨fun _ => ⟨1, rfl⟩, fun _ => ⟨0, rfl⟩⟩

/-- The places where the turns from a cursor on begin, and the place where they end. -/
inductive Turns (grammar : Grammar) : Cursor σ → Cursor σ → Prop where
  | here (cursor : Cursor σ) : Turns grammar cursor cursor
  | next {cursor moved place : Cursor σ} {item : Item} (hne : cursor.current.kind ≠ .eof)
      (h : turn? grammar cursor = some (item, moved)) (hon : Turns grammar moved place) :
      Turns grammar cursor place

theorem Turns.exists_skip {grammar : Grammar} {place : Cursor σ}
    (h : Turns grammar cursor place) : ∃ count, place = cursor.skip count := by
  induction h with
  | here => exact ⟨0, rfl⟩
  | next _ hturn _ ih =>
    obtain ⟨count, rfl⟩ := exists_skip_of_turn? hturn
    obtain ⟨more, rfl⟩ := ih
    exact ⟨count + 1 + more, (Cursor.skip_add _ _ _).symm⟩

theorem turns_itemsWithin (grammar : Grammar) (count : Nat) (cursor : Cursor σ) :
    Turns grammar cursor (itemsWithin grammar count cursor).2 := by
  induction count generalizing cursor with
  | zero => exact .here cursor
  | succ count ih =>
    rw [itemsWithin]
    split
    · exact .here cursor
    · rename_i hne
      cases hturn : turn? grammar cursor with
      | none => exact .here cursor
      | some result => exact .next hne hturn (ih result.2)

end BraceLang.Recovery

namespace BraceLang.Parser

open Recovery

variable {σ : Type} [TokenSource σ] {parser : Parser σ} {source : σ}

theorem exists_skip_of_run {α : Type} {request : Request} (action : Action σ α) (reply : α → Reply)
    (h : parser.perform request = (parser.run action).map reply)
    (hleads : parser.cursor.Leads (action parser.cursor)) :
    ∃ count, (parser.after request).cursor = parser.cursor.skip count := by
  have hrun : (parser.perform request).Ensures True
      (fun _ moved => ∃ count, moved.cursor = parser.cursor.skip count)
      fun _ moved => ∃ count, moved.cursor = parser.cursor.skip count := by
    rw [h, Outcome.ensures_map, run, Outcome.ensures_mapState]
    exact hleads
  unfold after
  cases hperform : parser.perform request with
  | ok reply moved =>
    rw [hperform] at hrun
    exact hrun
  | fail diagnostic moved =>
    rw [hperform] at hrun
    exact hrun
  | exhausted => exact ⟨0, rfl⟩

/-- Any request leads some number of advances ahead. -/
theorem exists_skip_after (parser : Parser σ) (request : Request) :
    ∃ count, (parser.after request).cursor = parser.cursor.skip count := by
  have hparallel := parallel_self parser.grammar parser.cursor parser.cursor.fuel
  cases request with
  | advance => exact ⟨1, rfl⟩
  | expect kind construct =>
    exact exists_skip_of_run (Action.expect kind construct) .token rfl (leads_expect _ _ _)
  | skipOptional kind =>
    by_cases hkind : parser.cursor.peek.kind = kind
    · exact ⟨1, if_pos hkind⟩
    · exact ⟨0, if_neg hkind⟩
  | registerLeading | registerTrailing | registerStatement | registerStandard => exact ⟨0, rfl⟩
  | parseProgram => exact (turns_itemsWithin parser.grammar _ parser.cursor).exists_skip
  | parseExpr entry =>
    exact exists_skip_of_run (entry.action parser.descent) .expr rfl
      (hparallel.exprEntry entry).leads
  | parseStmt entry =>
    exact exists_skip_of_run (entry.action parser.descent) .stmt rfl
      (hparallel.stmtEntry entry).leads
  | parseBlock =>
    exact exists_skip_of_run parser.descent.block .block rfl
      hparallel.blockEntry.leads

theorem exists_skip_afterAll (parser : Parser σ) (requests : List Request) :
    ∃ count, (parser.afterAll requests).cursor = parser.cursor.skip count := by
  induction requests generalizing parser with
  | nil => exact ⟨0, rfl⟩
  | cons request requests ih =>
    obtain ⟨count, hcount⟩ := parser.exists_skip_after request
    obtain ⟨more, hmore⟩ := ih (parser.after request)
    rw [hcount, ← Cursor.skip_add] at hmore
    exact ⟨count + more, hmore⟩

/-- After any session, and wherever a turn of the program begins that is read next, the depth is
that of the tokens through the current one, each of them counted once.  On an opening brace it
is one more than that of the tokens before, so that the depth around the brace is the latter. -/
theorem depth_afterAll (source : σ) (requests : List Request) (place : Cursor σ) :
    let parser := (Parser.start source).afterAll requests
    Turns parser.grammar parser.cursor place →
      ∃ taken, Counted source taken place ∧
        (place.current.kind = .openCurly →
          place.depth = braceDepth 0 taken + 1 ∧ place.outerDepth = braceDepth 0 taken) := by
  intro parser hturns
  obtain ⟨count, hcount⟩ := exists_skip_afterAll (Parser.start source) requests
  obtain ⟨more, rfl⟩ := hturns.exists_skip
  obtain ⟨taken, hcounted⟩ := exists_counted_skip source (count + more)
  rw [Cursor.skip_add, show (Cursor.start source).skip count = parser.cursor from hcount.symm]
    at hcounted
  exact ⟨taken, hcounted, hcounted.depth_of_openCurly⟩

/-- A closing brace that closes nothing is passed, a statement is read, and a brace opens. -/
theorem depth_afterAll_turn :
    let place : Span := ⟨⟨0, "turn"⟩, ⟨0, "turn"⟩⟩
    let opening : Token := ⟨.openCurly, "\x7b", place⟩
    let tokens : List Token := [⟨.closeCurly, "\x7d", place⟩, ⟨.identifier, "a", place⟩,
      ⟨.semicolon, ";", place⟩, opening]
    let parser := (Parser.start (TokenBuffer.ofList tokens)).afterAll [.advance]
    ∃ cursor, Turns parser.grammar parser.cursor cursor ∧ cursor.current = opening ∧
      ∃ taken, Counted (TokenBuffer.ofList tokens) taken cursor ∧
        cursor.depth = braceDepth 0 taken + 1 ∧ cursor.outerDepth = braceDepth 0 taken := by
  intro place opening tokens parser
  have hturns : Turns parser.grammar parser.cursor (parser.cursor.skip 2) :=
    .next (by decide) rfl (.here _)
  obtain ⟨taken, hcounted, hopening⟩ :=
    depth_afterAll (TokenBuffer.ofList tokens) [.advance] _ hturns
  exact ⟨_, hturns, rfl, taken, hcounted, hopening rfl⟩

end BraceLang.Parser
