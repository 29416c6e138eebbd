import BraceLang.Proofs.Parser.Sessions
import BraceLang.Proofs.Syntax.Program

/-!
# What a reading depends on

Two readings of whole sources give the same, apart from what an erasure leaves aside,
if the tokens that are left are alike one by one and have the same rules
(`Comparison.Matches.items_eq`).  This is used twice.

* With nothing left aside and the same tokens, it says which rules count: those for the
  kinds that occur, and for the end token (`reading_eq_of_sameRules`).
* With the standard grammar and all texts left aside, it says which texts count: those of
  integers (`parseTokens_shape`).
-/

namespace BraceLang

open Grammar Syntax

variable {σ τ : Type} [TokenSource σ] [TokenSource τ]

/-! ## Results -/

/-- A result without what is left aside. -/
def ParseResult.erase (E : Erasure) (result : ParseResult) : ParseResult :=
  ⟨⟨result.program.statements.map (Stmt.erase E)⟩,
    ⟨result.diagnostics.entries.map (Diagnostic.erase E)⟩⟩

theorem statementsOf_map_erase (E : Erasure) (items : List Item) :
    statementsOf (items.map (Item.erase E)) = (statementsOf items).map (Stmt.erase E) := by
  induction items with
  | nil => rfl
  | cons item items ih =>
    cases item with
    | ok statement => exact congrArg (statement.erase E :: ·) ih
    | error diagnostic => exact ih

theorem diagnosticsOf_map_erase (E : Erasure) (items : List Item) :
    diagnosticsOf (items.map (Item.erase E)) = (diagnosticsOf items).map (Diagnostic.erase E) := by
  induction items with
  | nil => rfl
  | cons item items ih =>
    cases item with
    | ok statement => exact ih
    | error diagnostic => exact congrArg (diagnostic.erase E :: ·) ih

/-- What a parser reads as a program, and all of its diagnostics then. -/
def Parser.reading (parser : Parser σ) : ParseResult :=
  ⟨parser.parseProgram.1, parser.parseProgram.2.diagnostics⟩

theorem Parser.reading_eq_items (parser : Parser σ) :
    parser.reading = ⟨⟨statementsOf (items parser.grammar parser.cursor).1⟩,
      parser.diagnostics.append (diagnosticsOf (items parser.grammar parser.cursor).1)⟩ := rfl

/-! ## Comparisons of whole sources -/

/-- What is kept of a token ahead. -/
theorem Erasure.view_skip (E : Erasure) (cursor : Cursor σ) (count : Nat) :
    E.view (cursor.skip count).current =
      ((cursor.rest.map E.view).drop count).headD (E.view cursor.last) := by
  rw [Cursor.current_skip, ← List.map_drop]
  cases cursor.rest.drop count <;> rfl

/-- The cursors see the same up to the end, and the grammars have the same rules for what
they see. -/
structure Comparison.Matches (p : Comparison σ τ) : Prop where
  depth : p.start.depth = p.start'.depth
  rest : p.start.rest.map p.erasure.view = p.start'.rest.map p.erasure.view
  last : p.erasure.view p.start.last = p.erasure.view p.start'.last
  rules : ∀ token ∈ p.start.last :: p.start.rest, p.grammar.SameRules p.grammar' token.kind

namespace Comparison.Matches

variable {p : Comparison σ τ}

theorem agree (h : p.Matches) (count : Nat) : p.Agree count := by
  intro i _
  refine ⟨by rw [Erasure.view_skip, Erasure.view_skip, h.rest, h.last], h.rules _ ?_⟩
  rcases List.mem_append.1 (p.start.current_skip_mem i) with hrest | hlast
  · exact List.mem_cons_of_mem _ hrest
  · exact List.mem_cons.2 (.inl (List.mem_singleton.1 hlast))

theorem items_eq (h : p.Matches) (hg : p.grammar.StopsAtEnd) (hg' : p.grammar'.StopsAtEnd) :
    (items p.grammar p.start).1.map (Item.erase p.erasure) =
      (items p.grammar' p.start').1.map (Item.erase p.erasure) :=
  items_parallel hg hg' h.depth h.agree 0

end Comparison.Matches

/-- Sources whose tokens are alike are read alike. -/
theorem parse_erase_eq {source : σ} {source' : τ} (E : Erasure)
    (hrest : (Cursor.start source).rest.map E.view = (Cursor.start source').rest.map E.view)
    (hlast : E.view (Cursor.start source).last = E.view (Cursor.start source').last) :
    (parse source).erase E = (parse source').erase E := by
  let p : Comparison σ τ := ⟨E, .standard, .standard, .start source, .start source'⟩
  have hcurrent : E.view (Cursor.start source).current = E.view (Cursor.start source').current := by
    have hhere := E.view_skip (.start source) 0
    rw [hrest, hlast, ← E.view_skip (.start source') 0] at hhere
    exact hhere
  have hmatches : p.Matches :=
    { depth := congrArg (depthAfter 0) (Erasure.kind_eq hcurrent)
      rest := hrest
      last := hlast
      rules := fun _ _ => ⟨rfl, rfl, rfl⟩ }
  have hitems := hmatches.items_eq standard_stopsAtEnd standard_stopsAtEnd
  rw [parse_eq, parse_eq]
  simp only [ParseResult.erase]
  rw [← statementsOf_map_erase, ← statementsOf_map_erase, ← diagnosticsOf_map_erase,
    ← diagnosticsOf_map_erase, show (items _ _).1.map _ = _ from hitems]

/-! ## Rules that count -/

/-- The request gives rules to kinds, and asks for nothing else. -/
def Request.Registers : Request → Prop
  | .registerLeading .. | .registerTrailing .. | .registerStatement .. | .registerStandard => True
  | _ => False

/-- The one kind to which the request gives a rule. -/
def Request.registered? : Request → Option TokenKind
  | .registerLeading kind _ | .registerTrailing kind _ _ | .registerStatement kind _ => some kind
  | _ => none

theorem Request.registers_of_registered? {request : Request} {kind : TokenKind}
    (h : request.registered? = some kind) : request.Registers := by
  cases request with
  | registerLeading | registerTrailing | registerStatement => trivial
  | _ => cases h

theorem Request.sparesEnd_of_registered? {request : Request} {kind : TokenKind}
    (h : request.registered? = some kind) (hne : kind ≠ .eof) : request.SparesEnd := by
  cases request with
  | registerLeading | registerTrailing =>
    cases h
    exact hne
  | registerStatement => trivial
  | _ => cases h

namespace Parser

variable {parser : Parser σ} {request : Request} {requests requests' : List Request}

/-- Registrations touch nothing but the grammar. -/
theorem afterAll_of_registers (h : ∀ request ∈ requests, request.Registers) :
    (parser.afterAll requests).cursor = parser.cursor ∧
      (parser.afterAll requests).diagnostics = parser.diagnostics := by
  induction requests generalizing parser with
  | nil => exact ⟨rfl, rfl⟩
  | cons request requests ih =>
    obtain ⟨hfirst, hothers⟩ := List.forall_mem_cons.1 h
    have hstep : (parser.after request).cursor = parser.cursor ∧
        (parser.after request).diagnostics = parser.diagnostics := by
      cases request <;> first | exact ⟨rfl, rfl⟩ | exact hfirst.elim
    obtain ⟨hcursor, hdiagnostics⟩ := @ih (parser.after request) hothers
    exact ⟨hcursor.trans hstep.1, hdiagnostics.trans hstep.2⟩

/-- A registration leaves the rules of all other kinds as they are. -/
theorem sameRules_after {kind other : TokenKind} (h : request.registered? = some kind)
    (hne : other ≠ kind) : (parser.after request).grammar.SameRules parser.grammar other := by
  cases request with
  | registerLeading =>
    cases h
    exact ⟨if_neg hne, rfl, rfl⟩
  | registerTrailing =>
    cases h
    exact ⟨rfl, if_neg hne, rfl⟩
  | registerStatement =>
    cases h
    exact ⟨rfl, rfl, if_neg hne⟩
  | _ => cases h

/-- Parsers at one place, with the same diagnostics so far, read the same if their grammars
have the same rules for what is left. -/
theorem reading_eq {parser' : Parser σ} (hcursor : parser.cursor = parser'.cursor)
    (hdiagnostics : parser.diagnostics = parser'.diagnostics)
    (hg : parser.grammar.StopsAtEnd) (hg' : parser'.grammar.StopsAtEnd)
    (hrules : ∀ token ∈ parser.cursor.last :: parser.cursor.rest,
      parser.grammar.SameRules parser'.grammar token.kind) :
    parser.reading = parser'.reading := by
  let p : Comparison σ σ :=
    ⟨.none, parser.grammar, parser'.grammar, parser.cursor, parser.cursor⟩
  have hmatches : p.Matches := { depth := rfl, rest := rfl, last := rfl, rules := hrules }
  have hitems : (items parser.grammar parser.cursor).1 = (items parser'.grammar parser.cursor).1 :=
    (Item.map_erase_none _).symm.trans ((hmatches.items_eq hg hg').trans (Item.map_erase_none _))
  rw [reading_eq_items, reading_eq_items, ← hcursor, ← hdiagnostics, hitems]

end Parser

/-- The tokens that a list leaves to read are among it, and the end token. -/
theorem kind_mem_of_start {tokens : List Token} {token : Token}
    (h : token ∈ (Cursor.start (TokenBuffer.ofList tokens)).last ::
      (Cursor.start (TokenBuffer.ofList tokens)).rest) :
    token.kind ∈ TokenKind.eof :: tokens.map Token.kind := by
  rcases List.mem_cons.1 h with rfl | hrest
  · rw [Cursor.last_kind]
    exact List.mem_cons_self
  · rw [rest_start_ofList] at hrest
    exact List.mem_cons_of_mem _
      (List.mem_map_of_mem ((List.takeWhile_sublist _).subset hrest))

/-- Of all rules that were registered, only those count that the kinds among the tokens and the
end token have at last.  So a rule for any other kind can be added, and nothing else is read. -/
theorem reading_eq_of_sameRules (tokens : List Token) (requests requests' : List Request)
    (hregisters : ∀ request ∈ requests, request.Registers)
    (hregisters' : ∀ request ∈ requests', request.Registers) :
    let fresh := Parser.start (TokenBuffer.ofList tokens)
    let parser := fresh.afterAll requests
    let parser' := fresh.afterAll requests'
    let kinds := TokenKind.eof :: tokens.map Token.kind
    parser.grammar.StopsAtEnd → parser'.grammar.StopsAtEnd →
      (∀ kind ∈ kinds, parser.grammar.SameRules parser'.grammar kind) →
      parser.reading = parser'.reading ∧
        ∀ request kind, request.registered? = some kind → kind ∉ kinds →
          (parser.after request).reading = parser.reading := by
  intro fresh parser parser' kinds hg hg' hsame
  obtain ⟨hcursor, hdiagnostics⟩ := fresh.afterAll_of_registers hregisters
  obtain ⟨hcursor', hdiagnostics'⟩ := fresh.afterAll_of_registers hregisters'
  have hkinds : ∀ token ∈ parser.cursor.last :: parser.cursor.rest, token.kind ∈ kinds := by
    rw [hcursor]
    exact fun token => kind_mem_of_start
  refine ⟨Parser.reading_eq (hcursor.trans hcursor'.symm) (hdiagnostics.trans hdiagnostics'.symm)
    hg hg' fun token htoken => hsame _ (hkinds token htoken), ?_⟩
  intro request kind hkind hnot
  have hspares : request.SparesEnd := Request.sparesEnd_of_registered? hkind fun heof =>
    hnot (heof ▸ List.mem_cons_self)
  have hone : ∀ one ∈ [request], one.Registers :=
    List.forall_mem_singleton.2 (Request.registers_of_registered? hkind)
  obtain ⟨hstays, hstays'⟩ := parser.afterAll_of_registers hone
  exact Parser.reading_eq hstays hstays' (Parser.stopsAtEnd_after hg hspares) hg
    fun token htoken => Parser.sameRules_after hkind fun heq =>
      hnot (heq ▸ hkinds token (hstays ▸ htoken))

/-- A rule that is replaced, in another order, and rules for a comma that does not occur. -/
theorem reading_eq_of_sameRules_sum :
    let place : Span := ⟨⟨0, "sum"⟩, ⟨0, "sum"⟩⟩
    let tokens : List Token := [⟨.identifier, "a", place⟩, ⟨.plus, "+", place⟩,
      ⟨.identifier, "b", place⟩]
    let requests : List Request := [.registerTrailing .plus .call .binaryRight]
    let requests' : List Request := [.registerLeading .comma .operator,
      .registerTrailing .plus .logical .bareCall, .registerStandard,
      .registerStatement .comma .bareBlock, .registerTrailing .plus .call .binaryRight]
    let fresh := Parser.start (TokenBuffer.ofList tokens)
    let parser := fresh.afterAll requests
    let parser' := fresh.afterAll requests'
    let kinds := TokenKind.eof :: tokens.map Token.kind
    ((∀ request ∈ requests, request.Registers) ∧ (∀ request ∈ requests', request.Registers) ∧
      parser.grammar.StopsAtEnd ∧ parser'.grammar.StopsAtEnd ∧
      ∀ kind ∈ kinds, parser.grammar.SameRules parser'.grammar kind) ∧
      parser.grammar.leading .comma ≠ parser'.grammar.leading .comma ∧
      parser.reading = parser'.reading ∧
      (parser.after (.registerLeading .comma .group)).reading = parser.reading := by
  intro place tokens requests requests' fresh parser parser' kinds
  have hregisters : ∀ request ∈ requests, request.Registers := by
    simp [requests, Request.Registers]
  have hregisters' : ∀ request ∈ requests', request.Registers := by
    simp [requests', Request.Registers]
  have hg : parser.grammar.StopsAtEnd := ⟨rfl, rfl⟩
  have hg' : parser'.grammar.StopsAtEnd := ⟨rfl, rfl⟩
  have hsame : ∀ kind ∈ kinds, parser.grammar.SameRules parser'.grammar kind := by
    simp only [kinds, tokens, List.map_cons, List.map_nil, List.forall_mem_cons]
    exact ⟨⟨rfl, rfl, rfl⟩, ⟨rfl, rfl, rfl⟩, ⟨rfl, rfl, rfl⟩, ⟨rfl, rfl, rfl⟩, by simp⟩
  obtain ⟨hread, hmore⟩ :=
    reading_eq_of_sameRules tokens requests requests' hregisters hregisters' hg hg' hsame
  exact ⟨⟨hregisters, hregisters', hg, hg', hsame⟩, nofun, hread, hmore _ .comma rfl (by decide)⟩

/-! ## Texts that count -/

/-- All texts but those of integers are left aside, and all places. -/
def Erasure.shape : Erasure where
  token token := ⟨token.kind, "", .null⟩
  first token := ⟨token.kind, "", .null⟩
  text _ := ""
  position _ := .null

theorem Erasure.view_shape_eq {token token' : Token} (hkind : token.kind = token'.kind)
    (htext : token.kind = .integer → token.text = token'.text) :
    shape.view token = shape.view token' := by
  rw [hkind] at htext
  simp only [view, shape, hkind]
  by_cases hinteger : token'.kind = .integer
  · rw [htext hinteger]
  · rw [if_neg hinteger, if_neg hinteger]

theorem Erasure.map_view_shape_eq {tokens tokens' : List Token}
    (hkinds : tokens.map Token.kind = tokens'.map Token.kind)
    (hintegers : ∀ (i : Nat) (token token' : Token), tokens[i]? = some token →
      tokens'[i]? = some token' → token.kind = .integer → token.text = token'.text) :
    tokens.map shape.view = tokens'.map shape.view := by
  have hlength : tokens.length = tokens'.length := by
    simpa using congrArg List.length hkinds
  refine List.ext_getElem (by simpa using hlength) fun i hi hi' => ?_
  rw [List.length_map] at hi hi'
  have hkind : tokens[i].kind = tokens'[i].kind := by
    have hmap := congrArg (·[i]?) hkinds
    simpa [hi, hi'] using hmap
  rw [List.getElem_map, List.getElem_map]
  exact view_shape_eq hkind
    (hintegers i _ _ (List.getElem?_eq_getElem hi) (List.getElem?_eq_getElem hi'))

/-- The tokens before the end are alike if all are. -/
theorem map_takeWhile_ne_eof (E : Erasure) (tokens : List Token) :
    (tokens.takeWhile fun token => token.kind ≠ .eof).map E.view =
      (tokens.map E.view).takeWhile fun view => view.kind ≠ .eof := by
  rw [List.takeWhile_map]
  rfl

/-- How tokens are read does not depend on their texts, unless they are integers, nor on their
places: with the same kinds and the same integers, there are as many statements and diagnostics,
and they are the same, but for texts and places. -/
theorem parseTokens_shape (tokens tokens' : List Token)
    (hkinds : tokens.map Token.kind = tokens'.map Token.kind)
    (hintegers : ∀ (i : Nat) (token token' : Token), tokens[i]? = some token →
      tokens'[i]? = some token' → token.kind = .integer → token.text = token'.text) :
    (parseTokens tokens).erase .shape = (parseTokens tokens').erase .shape := by
  have hviews := Erasure.map_view_shape_eq hkinds hintegers
  refine parse_erase_eq .shape ?_ ?_
  · rw [rest_start_ofList, rest_start_ofList, map_takeWhile_ne_eof, map_takeWhile_ne_eof, hviews]
  · rw [last_start_ofList, last_start_ofList]
    have heof := TokenBuffer.endOf_kind tokens
    have heof' := TokenBuffer.endOf_kind tokens'
    refine Erasure.view_shape_eq (heof.trans heof'.symm) fun hinteger => ?_
    rw [heof] at hinteger
    cases hinteger

/-- Other names, other texts of words and signs, and other places. -/
theorem parseTokens_shape_binding :
    let place : Span := ⟨⟨0, "first"⟩, ⟨9, "first"⟩⟩
    let place' : Span := ⟨⟨7, "second"⟩, ⟨3, "third"⟩⟩
    let tokens : List Token := [⟨.letWord, "let", place⟩, ⟨.identifier, "x", place⟩,
      ⟨.assignment, "=", place⟩, ⟨.integer, "12", place⟩, ⟨.semicolon, ";", place⟩,
      ⟨.dash, "-", place⟩]
    let tokens' : List Token := [⟨.letWord, "if", place'⟩, ⟨.identifier, "count", place'⟩,
      ⟨.assignment, "", place'⟩, ⟨.integer, "12", place⟩, ⟨.semicolon, "let", place'⟩,
      ⟨.dash, "fn", place'⟩]
    tokens.map Token.kind = tokens'.map Token.kind ∧
      (∀ (i : Nat) (token token' : Token), tokens[i]? = some token →
        tokens'[i]? = some token' → token.kind = .integer → token.text = token'.text) ∧
      (parseTokens tokens).erase .shape = (parseTokens tokens').erase .shape := by
  intro place place' tokens tokens'
  have hkinds : tokens.map Token.kind = tokens'.map Token.kind := rfl
  have hintegers : ∀ (i : Nat) (token token' : Token), tokens[i]? = some token →
      tokens'[i]? = some token' → token.kind = .integer → token.text = token'.text := by
    intro i token token' htoken htoken' hinteger
    match i with
    | 0 | 1 | 2 | 4 | 5 =>
      cases htoken
      cases hinteger
    | 3 =>
      cases htoken
      cases htoken'
      rfl
    | i + 6 => cases htoken
  exact ⟨hkinds, hintegers, parseTokens_shape tokens tokens' hkinds hintegers⟩

end BraceLang
