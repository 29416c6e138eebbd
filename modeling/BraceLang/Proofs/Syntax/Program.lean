import BraceLang.Parse
import BraceLang.Proofs.Parser.Turns
import BraceLang.Proofs.Syntax.Complete

/-!
# Programs and their derivations

The turns of a source give nothing but statements just if all of its tokens
derive these statements (`items_eq_iff_derives`).  So a list of tokens is read
without a diagnostic just if it is a program, and what is read is its derivation:
there is no other one (`parseTokens_eq_iff`).
-/

namespace BraceLang.Syntax

open Grammar

variable {σ : Type} [TokenSource σ] {start cursor moved : Cursor σ} {statements : List Stmt}

/-! ## Items without diagnostics -/

theorem statementsOf_map_ok (statements : List Stmt) :
    statementsOf (statements.map Except.ok) = statements := by
  induction statements with
  | nil => rfl
  | cons first others ih => exact congrArg (first :: ·) ih

theorem diagnosticsOf_map_ok (statements : List Stmt) :
    diagnosticsOf (statements.map Except.ok) = [] := by
  induction statements with
  | nil => rfl
  | cons first others ih => exact ih

theorem eq_map_ok_of_diagnosticsOf {items : List Item} (h : diagnosticsOf items = []) :
    items = (statementsOf items).map Except.ok := by
  induction items with
  | nil => rfl
  | cons item items ih =>
    cases item with
    | ok statement => exact congrArg (Except.ok statement :: ·) (ih h)
    | error diagnostic => cases h

/-- The first diagnostic of the turns. -/
def firstOf (items : List Item) : Option Diagnostic :=
  (diagnosticsOf items).head?

/-! ## Programs -/

theorem firstKind_rest (cursor : Cursor σ) : firstKind cursor.rest .eof = cursor.current.kind := by
  by_cases heof : cursor.current.kind = .eof
  · rw [Cursor.rest_of_eof heof, heof]
    rfl
  · rw [Cursor.rest_of_ne_eof heof]
    rfl

/-- A turn that gives a statement takes the tokens from which it is derived. -/
theorem items_eq_ok_cons {first : Stmt} {others : List Item} (hne : cursor.current.kind ≠ .eof)
    (h : (items standard cursor).1 = .ok first :: others) :
    ∃ ts moved, (reader standard).stmt cursor = .ok first moved ∧ cursor.Reads ts moved ∧
      Derives (.stmt moved.peek.kind) ts first ∧ (items standard moved.advance).1 = others := by
  rcases stmt_ok_or_fail standard_stopsAtEnd cursor with
    ⟨statement, moved, hstmt⟩ | ⟨diagnostic, moved, hstmt⟩
  · rw [items_of_ok standard_stopsAtEnd hne hstmt] at h
    cases h
    obtain ⟨ts, hreads, hfirst⟩ := finds_of_stmt_ok hstmt
    exact ⟨ts, moved, hstmt, hreads, hfirst, rfl⟩
  · rw [items_of_fail standard_stopsAtEnd hne hstmt] at h
    cases h

/-- There are no items only where nothing is left. -/
theorem eof_of_items_eq_nil (h : (items standard cursor).1 = []) : cursor.current.kind = .eof := by
  apply Decidable.byContradiction
  intro hne
  rcases stmt_ok_or_fail standard_stopsAtEnd cursor with
    ⟨statement, moved, hstmt⟩ | ⟨diagnostic, moved, hstmt⟩
  · rw [items_of_ok standard_stopsAtEnd hne hstmt] at h
    cases h
  · rw [items_of_fail standard_stopsAtEnd hne hstmt] at h
    cases h

/-- Statements that turns give, and nothing else, are derived from what was
left. -/
theorem derives_of_items (h : (items standard cursor).1 = statements.map Except.ok) :
    Derives (.stmts .eof) cursor.rest statements := by
  induction statements generalizing cursor with
  | nil =>
    rw [Cursor.rest_of_eof (eof_of_items_eq_nil h)]
    exact .noStmts
  | cons first others ih =>
    have hne : cursor.current.kind ≠ .eof := fun heof => by
      rw [items_of_eof heof] at h
      cases h
    obtain ⟨ts, moved, _, hreads, hfirst, hothers⟩ := items_eq_ok_cons hne h
    rw [hreads.rest_eq]
    refine .moreStmts ?_ (ih hothers)
    rw [firstKind_rest]
    exact hfirst

theorem ReadsStmts.items (h : ReadsStmts start statements cursor)
    (heof : cursor.current.kind = .eof) :
    items standard start = (statements.map Except.ok, cursor) := by
  induction h with
  | none cursor => exact items_of_eof heof
  | more hbegins hfirst _ ih =>
    rw [items_of_ok standard_stopsAtEnd hbegins.ne.1 hfirst, ih heof]
    rfl

/-- Statements that are derived from what is left are what the turns give. -/
theorem items_of_derives (h : Derives (.stmts .eof) cursor.rest statements) :
    (items standard cursor).1 = statements.map Except.ok := by
  obtain ⟨moved, hpasses, heof⟩ := cursor.exists_passes_rest
  have hreads : ReadsStmts cursor statements moved :=
    recovers_of_derives h cursor moved hpasses heof (.inr rfl)
  rw [hreads.items heof]

/-- The turns give statements and nothing else just if what is left derives
them. -/
theorem items_eq_iff_derives :
    (items standard cursor).1 = statements.map Except.ok ↔
      Derives (.stmts .eof) cursor.rest statements :=
  ⟨derives_of_items, items_of_derives⟩

/-- What is read from a source is what its turns give. -/
theorem parse_eq (source : σ) :
    parse source = ⟨⟨statementsOf (items standard (Cursor.start source)).1⟩,
      ⟨diagnosticsOf (items standard (Cursor.start source)).1⟩⟩ := rfl

theorem mem_statementsOf {items : List Item} {statement : Stmt} :
    statement ∈ statementsOf items ↔ Except.ok statement ∈ items := by
  rw [statementsOf, List.mem_filterMap]
  constructor
  · intro hread
    obtain ⟨item, hmem, hitem⟩ := hread
    cases item with
    | ok first =>
      cases hitem
      exact hmem
    | error diagnostic => cases hitem
  · exact fun hmem => ⟨.ok statement, hmem, rfl⟩

theorem mem_diagnosticsOf {items : List Item} {diagnostic : Diagnostic} :
    diagnostic ∈ diagnosticsOf items ↔ .error diagnostic ∈ items := by
  rw [diagnosticsOf, List.mem_filterMap]
  constructor
  · intro hfound
    obtain ⟨item, hmem, hitem⟩ := hfound
    cases item with
    | ok statement => cases hitem
    | error other =>
      cases hitem
      exact hmem
  · exact fun hmem => ⟨.error diagnostic, hmem, rfl⟩

/-! ## Lists of tokens -/

/-- The turns of a list of tokens. -/
def itemsOf (tokens : List Token) : List Item :=
  (items standard (Cursor.start (TokenBuffer.ofList tokens))).1

theorem parseTokens_eq (tokens : List Token) :
    parseTokens tokens = ⟨⟨statementsOf (itemsOf tokens)⟩, ⟨diagnosticsOf (itemsOf tokens)⟩⟩ :=
  parse_eq _

theorem rest_start_ofList (tokens : List Token) :
    (Cursor.start (TokenBuffer.ofList tokens)).rest =
      tokens.takeWhile fun token => token.kind ≠ .eof :=
  (Cursor.rest_start_buffer _).1

theorem last_start_ofList (tokens : List Token) :
    (Cursor.start (TokenBuffer.ofList tokens)).last = TokenBuffer.endOf tokens :=
  (Cursor.rest_start_buffer _).2

theorem takeWhile_ne_eof {tokens : List Token} (h : ∀ token ∈ tokens, token.kind ≠ .eof) :
    tokens.takeWhile (fun token => token.kind ≠ .eof) = tokens := by
  have happend := @List.takeWhile_append_of_pos _ (fun token => token.kind ≠ .eof) tokens []
    (by simpa using h)
  rwa [List.append_nil, List.takeWhile_nil, List.append_nil] at happend

theorem endOf_append {tokens more : List Token} (h : ∀ token ∈ tokens, token.kind ≠ .eof)
    (hmore : more ≠ []) : TokenBuffer.endOf (tokens ++ more) = TokenBuffer.endOf more := by
  have hfind : tokens.find? (fun token => token.kind = .eof) = none := by simpa using h
  have hlast : (tokens ++ more).getLast? = more.getLast? := by
    rw [List.getLast?_append, List.getLast?_eq_some_getLast hmore, Option.some_or]
  unfold TokenBuffer.endOf
  rw [List.find?_append, hfind, hlast]
  rfl

theorem takeWhile_append {tokens more : List Token} (h : ∀ token ∈ tokens, token.kind ≠ .eof) :
    (tokens ++ more).takeWhile (fun token => token.kind ≠ .eof) =
      tokens ++ more.takeWhile fun token => token.kind ≠ .eof :=
  List.takeWhile_append_of_pos (by simpa using h)

theorem rest_start_of_ne_eof {tokens : List Token} (h : ∀ token ∈ tokens, token.kind ≠ .eof) :
    (Cursor.start (TokenBuffer.ofList tokens)).rest = tokens := by
  rw [rest_start_ofList, takeWhile_ne_eof h]

/-- Tokens are read without a diagnostic just if their turns give the statements and
nothing else. -/
theorem parseTokens_eq_iff_itemsOf {tokens : List Token} :
    parseTokens tokens = ⟨⟨statements⟩, .empty⟩ ↔ itemsOf tokens = statements.map Except.ok := by
  rw [parseTokens_eq]
  constructor
  · intro heq
    simp only [Diagnostics.empty, ParseResult.mk.injEq, Program.mk.injEq,
      Diagnostics.mk.injEq] at heq
    rw [eq_map_ok_of_diagnosticsOf heq.2, heq.1]
  · intro heq
    rw [heq, statementsOf_map_ok, diagnosticsOf_map_ok]
    rfl

/-- Tokens are read without a diagnostic just if they are a program, and then as
what they derive. -/
theorem parseTokens_eq_iff {tokens : List Token} (h : ∀ token ∈ tokens, token.kind ≠ .eof) :
    parseTokens tokens = ⟨⟨statements⟩, .empty⟩ ↔ Derives (.stmts .eof) tokens statements := by
  rw [parseTokens_eq_iff_itemsOf, itemsOf, items_eq_iff_derives, rest_start_of_ne_eof h]

/-- The parser accepts just the programs of the syntax: the tokens that it reads
without a diagnostic are those that derive statements, and it gives the statements
that they derive. -/
theorem parseTokens_accepts_iff {tokens : List Token} (h : ∀ token ∈ tokens, token.kind ≠ .eof) :
    ((parseTokens tokens).diagnostics = .empty ↔
        ∃ statements, Derives (.stmts .eof) tokens statements) ∧
      ∀ statements, Derives (.stmts .eof) tokens statements ↔
        parseTokens tokens = ⟨⟨statements⟩, .empty⟩ := by
  refine ⟨⟨fun hempty => ?_, ?_⟩, fun statements => (parseTokens_eq_iff h).symm⟩
  · refine ⟨(parseTokens tokens).program.statements, (parseTokens_eq_iff h).1 ?_⟩
    rw [← hempty]
  · intro hprogram
    obtain ⟨statements, hderives⟩ := hprogram
    rw [(parseTokens_eq_iff h).2 hderives]

/-- Operators of one level group to the left. -/
theorem parseTokens_accepts_difference :
    let place : Span := ⟨⟨0, "difference"⟩, ⟨0, "difference"⟩⟩
    let a : Token := ⟨.identifier, "a", place⟩
    let minus : Token := ⟨.dash, "-", place⟩
    let tokens := [a, minus, a, minus, a]
    (∀ token ∈ tokens, token.kind ≠ .eof) ∧
      parseTokens tokens =
        ⟨⟨[.expr a (.binary minus "-" (.binary minus "-" (.ident ⟨a, "a"⟩) (.ident ⟨a, "a"⟩))
          (.ident ⟨a, "a"⟩))]⟩, .empty⟩ := by
  intro place a minus tokens
  have hkinds : ∀ token ∈ tokens, token.kind ≠ .eof := by decide
  have hname : ∀ level, level ≤ 7 → Derives (.expr level) [a] (.ident ⟨a, "a"⟩) :=
    fun level hlevel => (Derives.ident rfl).loosen hlevel (Nat.le_refl 7)
  have hdifference : Derives (.expr 3) tokens (.binary minus "-"
      (.binary minus "-" (.ident ⟨a, "a"⟩) (.ident ⟨a, "a"⟩)) (.ident ⟨a, "a"⟩)) :=
    .binary (by decide) (.binary (by decide) (hname 3 (by decide)) (hname 4 (by decide)))
      (hname 4 (by decide))
  have hstmt : Derives (.stmt .eof) tokens _ :=
    .expr (hdifference.loosen (Nat.zero_le 3) (by decide)) (.omitted (by decide))
  exact ⟨hkinds, ((parseTokens_accepts_iff hkinds).2 _).1
    (@Derives.moreStmts .eof tokens [] _ _ hstmt .noStmts)⟩

end BraceLang.Syntax
