import BraceLang.Proofs.Parser.Sessions
import BraceLang.Proofs.Recovery.Segments

/-!
# Diagnostics are about tokens

Every diagnostic of a program is about one token that is there to be read, the end token
included: it has the position of the token, and what it says of the token is the case
(`parseTokens_blames`).

* A failed statement blames the token where the cursor stands, or the one behind it
  (`Breaks`).  Neither is behind the end, from whatever place the turns begin
  (`exists_blamed_of_mem_items`).
* The rule for literals has a fallback for tokens that are none.  A grammar can give the rule
  to any kind, but the standard grammar gives it to kinds of literals alone.  So the parser is
  the same whatever the fallback is (`descentOr_eq`), and every diagnostic about a token
  that begins no expression comes from a kind without a leading rule.
-/

namespace BraceLang.Recovery

open Grammar Syntax Descent BraceLang.Action

variable {σ : Type} [TokenSource σ] {cursor : Cursor σ}

/-! ## Tokens that are there -/

/-- Some number of braces is open in front of the current token. -/
theorem exists_opens (cursor : Cursor σ) : ∃ base, Opens base cursor := by
  by_cases hopen : cursor.current.kind = .openCurly
  · have hpos := cursor.depth_pos hopen
    refine ⟨cursor.depth - 1, ?_⟩
    rw [Opens, hopen, depthAfter]
    omega
  · by_cases hclose : cursor.current.kind = .closeCurly
    · exact ⟨cursor.depth + 1, by rw [Opens, hclose]; rfl⟩
    · exact ⟨cursor.depth, (depthAfter_of_ne hopen hclose).symm⟩

/-- The token that a failed statement blames is there. -/
theorem Breaks.exists_blamed {base : Nat} {diagnostic : Diagnostic} {moved : Cursor σ}
    (h : Breaks base cursor diagnostic moved) :
    ∃ token ∈ cursor.rest ++ [cursor.last], Blames diagnostic token := by
  obtain ⟨ts, hpasses⟩ := h.stays
  have hmoved := hpasses.skip_eq
  subst hmoved
  rcases h.blames with ⟨hcurrent, _⟩ | ⟨_, hpeek⟩
  · exact ⟨_, cursor.current_skip_mem ts.length, hcurrent⟩
  · exact ⟨_, cursor.current_skip_mem (ts.length + 1), hpeek⟩

/-- From any place on, every diagnostic of the turns is about a token that is there. -/
theorem exists_blamed_of_mem_items {diagnostic : Diagnostic} (cursor : Cursor σ)
    (h : .error diagnostic ∈ (items standard cursor).1) :
    ∃ token ∈ cursor.rest ++ [cursor.last], Blames diagnostic token := by
  by_cases heof : cursor.current.kind = .eof
  · rw [items_of_eof heof] at h
    cases h
  · -- A diagnostic of the first turn, or one of the others.
    obtain ⟨item, moved, hturn, hfirst⟩ : ∃ item moved, turn? standard cursor = some (item, moved) ∧
        ∀ diagnostic, item = .error diagnostic →
          ∃ token ∈ cursor.rest ++ [cursor.last], Blames diagnostic token := by
      rcases stmt_ok_or_fail standard_stopsAtEnd cursor with
        ⟨statement, last, hstmt⟩ | ⟨failure, last, hstmt⟩
      · exact ⟨_, _, turn?_of_ok hstmt, fun _ heq => by cases heq⟩
      · refine ⟨_, _, turn?_of_fail hstmt, fun _ heq => ?_⟩
        cases heq
        obtain ⟨base, hopens⟩ := exists_opens cursor
        exact (breaks_of_stmt_fail hopens hstmt).exists_blamed
    have hlt := remaining_lt_of_turn? standard_stopsAtEnd heof hturn
    rw [items_of_turn? standard_stopsAtEnd heof hturn] at h
    rcases List.mem_cons.1 h with hhead | htail
    · exact hfirst diagnostic hhead.symm
    · obtain ⟨token, hmem, hblames⟩ := exists_blamed_of_mem_items moved htail
      obtain ⟨count, rfl⟩ := exists_skip_of_turn? hturn
      exact ⟨token, Cursor.mem_of_mem_skip hmem, hblames⟩
termination_by cursor.remaining

/-! ## The fallback of the rule for literals -/

/-- The rule for names and literals, with `fallback` for a token that is neither. -/
def literalOr (fallback : Token → Action σ Expr) : Action σ Expr := do
  let token ← current
  match token.kind with
  | .identifier | .integer | .string | .trueWord | .falseWord => literal
  | _ => fallback token

/-- A leading rule, with `fallback` in the rule for literals. -/
def leadOr (fallback : Token → Action σ Expr) (d : Descent σ) : LeadingRule → Action σ Expr
  | .literal => literalOr fallback
  | rule => d.lead rule

/-- An expression above a floor, with `fallback` in the rule for literals. -/
def exprStepOr (fallback : Token → Action σ Expr) (grammar : Grammar) (d : Descent σ)
    (floor : BindingPower) : Action σ Expr := do
  let token ← current
  match grammar.leading token.kind with
  | some rule =>
    let left ← leadOr fallback d rule
    d.chain floor left
  | none => refuse (.noExpression token.kind token.text) token

/-- The entry points of a grammar, with `fallback` in the rule for literals. -/
def descentOr (fallback : Token → Action σ Expr) (grammar : Grammar) : Nat → Descent σ
  | 0 => .exhausted
  | fuel + 1 =>
    { Descent.step grammar (descentOr fallback grammar fuel) with
      expr := exprStepOr fallback grammar (descentOr fallback grammar fuel) }

/-- The fallback of the parser. -/
def noLiteral (token : Token) : Action σ Expr :=
  refuse (.noExpression token.kind token.text) token

theorem literalOr_noLiteral (cursor : Cursor σ) :
    literalOr noLiteral cursor = literal cursor := by
  rw [literalOr, bind_apply, current]
  simp only
  cases hkind : cursor.current.kind with
  | identifier | integer | string | trueWord | falseWord => rfl
  | _ => simp only [noLiteral, literal, bind_apply, current, hkind]

theorem literalOr_of_kind (fallback : Token → Action σ Expr)
    (hkind : standard.leading cursor.current.kind = some .literal) :
    literalOr fallback cursor = literal cursor := by
  rw [literalOr, bind_apply, current]
  simp only
  rcases leading_eq_some_iff.1 hkind with h | h | h | h | h <;> rw [h]

section Fallback

variable {fallback : Token → Action σ Expr} {grammar : Grammar}

theorem exprStepOr_eq (h : ∀ cursor : Cursor σ,
      grammar.leading cursor.current.kind = some .literal →
        literalOr fallback cursor = literal cursor)
    (d : Descent σ) : exprStepOr fallback grammar d = exprStep grammar d := by
  funext floor cursor
  simp only [exprStepOr, exprStep, bind_apply, current]
  cases hrule : grammar.leading cursor.current.kind with
  | none => rfl
  | some rule =>
    have hlead : leadOr fallback d rule cursor = d.lead rule cursor := by
      cases rule with
      | literal => exact h cursor hrule
      | operator | group | conditional | function => rfl
    simp only [bind_apply, hlead]

/-- A fallback that makes no difference where the rule is used makes none at all. -/
theorem descentOr_eq (h : ∀ cursor : Cursor σ,
      grammar.leading cursor.current.kind = some .literal →
        literalOr fallback cursor = literal cursor)
    (fuel : Nat) : descentOr fallback grammar fuel = descent grammar fuel := by
  induction fuel with
  | zero => rfl
  | succ fuel ih =>
    rw [descent_succ, descentOr, ih, exprStepOr_eq h]
    rfl

end Fallback

/-- Every diagnostic is about a token before the end, or about the end token.  The fallback of
the rule for literals has no part in this: the parser has it, but with the standard grammar
any other would do. -/
theorem parseTokens_blames (tokens : List Token) :
    (∀ diagnostic ∈ (parseTokens tokens).diagnostics.entries,
      ∃ token ∈ tokens.takeWhile (fun token => token.kind ≠ .eof) ++ [TokenBuffer.endOf tokens],
        Blames diagnostic token) ∧
    (∀ (grammar : Grammar) (fuel : Nat),
      (descentOr noLiteral grammar fuel : Descent TokenBuffer) = descent grammar fuel) ∧
    ∀ (fallback : Token → Action TokenBuffer Expr) (fuel : Nat),
      descentOr fallback standard fuel = descent standard fuel := by
  refine ⟨fun diagnostic hmem => ?_, fun grammar fuel => ?_, fun fallback fuel => ?_⟩
  · rw [parseTokens_eq] at hmem
    have hitem := mem_diagnosticsOf.1 hmem
    rw [← rest_start_ofList, ← last_start_ofList]
    exact exists_blamed_of_mem_items _ hitem
  · exact descentOr_eq (fun cursor _ => literalOr_noLiteral cursor) fuel
  · exact descentOr_eq (fun cursor hkind => literalOr_of_kind fallback hkind) fuel

end BraceLang.Recovery
