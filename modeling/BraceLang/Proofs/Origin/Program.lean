import BraceLang.Proofs.Literal.Numerals
import BraceLang.Proofs.Origin.Parts
import BraceLang.Proofs.Render.RoundTrip
import BraceLang.Proofs.Scan.Tiling

/-!
# Programs point back at their sources

Whatever is read from a source, with diagnostics or without, each node of the program is known
by tokens of the source (`parseSource_pointsBack`).

* The tokens are of the kinds that the node demands, and its value is what they say
  (`owned`).  This holds of trees that are spelt, and so of everything that is read.
* Each node is derived from a part of the tokens of the source (`parts`), and holds tokens of
  this part (`heldIn`).
* The tokens of the whole program, one node after the other, are tokens of the source in their
  order, and so their spans are.

The parts of a program are those of its segments: nothing of a broken statement is in the
program, and no statement begins behind an opening parenthesis, because no segment ends with
one.
-/

namespace BraceLang

open Syntax Recovery Grammar

/-! ## Nodes and their tokens -/

/-- The kinds of binary operators. -/
def binaryKinds : List TokenKind :=
  [.and, .or, .equals, .notEquals, .less, .lessEquals, .greater, .greaterEquals, .plus, .dash,
    .star, .slash, .percent]

/-- A name is the text of its token. -/
def Identifier.Owned (identifier : Identifier) : Prop :=
  identifier.token.kind = .identifier ∧ identifier.name = identifier.token.text

/-- The token of an expression has the kind that the expression demands, and the value is what
the token says. -/
def Expr.Owned : Expr → Prop
  | .ident identifier => identifier.Owned
  | .int token value =>
    token.kind = .integer ∧
      (token.text.toList ≠ [] ∧ ∀ c ∈ token.text.toList, c.isDigit = true) ∧
      value.toInt = Text.decimal token.text.toList
  | .str token value => token.kind = .string ∧ value = token.text
  | .bool token value =>
    (token.kind = .trueWord ∨ token.kind = .falseWord) ∧ (value = true ↔ token.kind = .trueWord)
  | .unary token operator _ =>
    (token.kind = .not ∨ token.kind = .dash) ∧ operator = token.text
  | .binary token operator _ _ => token.kind ∈ binaryKinds ∧ operator = token.text
  | .cond token _ _ _ => token.kind = .ifWord
  | .func token parameters _ => token.kind = .fnWord ∧ ∀ name ∈ parameters, name.Owned
  | .call token _ _ => token.kind = .openParen

/-- The tokens of a statement have the kinds that the statement demands. -/
def Stmt.Owned : Stmt → Prop
  | .bind token name _ => token.kind = .letWord ∧ name.Owned
  | .ret token _ => token.kind = .returnWord
  | .expr _ _ => True

/-- Each node has tokens of the kinds that it demands, and what they say. -/
def owned : Nodes where
  expr := Expr.Owned
  stmt := Stmt.Owned
  block block := block.token.kind = .openCurly

theorem mem_binaryKinds {level : Nat} {kind : TokenKind} (h : kind ∈ operators level) :
    kind ∈ binaryKinds := by
  have hlevel := (trailing_of_mem_operators h).1
  have hall : ∀ level < 5, ∀ kind ∈ operators level, kind ∈ binaryKinds := by decide
  exact hall level hlevel kind h

theorem digits_of_spelled {text : String} (h : Spelled .integer text) :
    Text.Digits text.toList := by
  cases h with
  | word hkind =>
    rcases TokenKind.ofWord_cases text with hname | hreserved
    · rw [hkind] at hname
      cases hname
    · rw [hkind] at hreserved
      simp [TokenKind.reservedWords] at hreserved
  | numeral htext hfirst hmore =>
    rw [htext]
    exact ⟨List.cons_ne_nil _ _, List.forall_mem_cons.2 ⟨hfirst, hmore⟩⟩
  | fixed hmem => simp [LexemeClass.table] at hmem

theorem Identifier.Spelt.owned {identifier : Identifier} (h : identifier.Spelt) :
    identifier.Owned :=
  ⟨congrArg Prod.fst h.1, (congrArg Prod.snd h.1).symm⟩

/-- The tokens of a spelt tree belong to its nodes. -/
theorem spelt_implies_owned : spelt.Implies owned where
  expr expression h := by
    cases expression with
    | ident identifier => exact Identifier.Spelt.owned h
    | int token value =>
      obtain ⟨hkind, hspelled, hvalue⟩ := h
      have hdigits := digits_of_spelled hspelled
      have hread := Text.toInt_readInt64? hvalue
      rw [Text.readInteger?_digits hdigits] at hread
      exact ⟨hkind, hdigits, (Option.some.inj hread).symm⟩
    | str token value => exact ⟨congrArg Prod.fst h, (congrArg Prod.snd h).symm⟩
    | bool token value =>
      have hkind : token.kind = (boolSpelling value).1 := congrArg Prod.fst h
      show (token.kind = .trueWord ∨ token.kind = .falseWord) ∧
        (value = true ↔ token.kind = .trueWord)
      rw [hkind]
      cases value <;> decide
    | unary token operator operand => exact ⟨h.1, h.2.1.symm⟩
    | binary token operator left right =>
      obtain ⟨⟨level, hkind⟩, htext, _⟩ := h
      exact ⟨mem_binaryKinds hkind, htext.symm⟩
    | cond token condition consequence alternative => exact congrArg Prod.fst h
    | func token parameters body =>
      exact ⟨congrArg Prod.fst h.1, fun name hname => (h.2 name hname).owned⟩
    | call token callee arguments => exact congrArg Prod.fst h
  stmt statement h := by
    cases statement with
    | bind token name value => exact ⟨congrArg Prod.fst h.1, h.2.owned⟩
    | ret token value => exact congrArg Prod.fst h
    | expr token expression => trivial
  block block h := congrArg Prod.fst h

/-- The nodes hold some of the tokens. -/
def heldIn (tokens : List Token) : Nodes where
  expr expression := expression.held ⊆ tokens
  stmt statement := statement.held ⊆ tokens
  block block := block.token ∈ tokens

/-- A node that is derived from a part of the tokens holds tokens of this part. -/
theorem parts_implies_heldIn (tokens : List Token) : (parts tokens).Implies (heldIn tokens) where
  expr expression := by
    rintro ⟨level, text, hinfix, hderives⟩
    exact List.Subset.trans expression.held_subset
      (List.Subset.trans hderives.tokens_sublist.subset hinfix.subset)
  stmt statement := by
    rintro ⟨before, text, after, rfl, hderives, hhead, _⟩
    have htext : statement.held ⊆ text := List.Subset.trans statement.held_subset
      (List.cons_subset.2 ⟨List.mem_of_mem_head? hhead, hderives.tokens_sublist.subset⟩)
    exact List.Subset.trans htext
      (List.Subset.trans (List.subset_append_left _ _) (List.subset_append_right _ _))
  block block := by
    rintro ⟨text, hinfix, hderives⟩
    exact hinfix.subset (hderives.tokens_sublist.subset block.token_mem)

/-! ## All segments -/

section Segments

variable {last : Token} {ts : List Token} {items : List Item} {segments : List Segment}

/-- The tokens of the statements are tokens of the segments, in their order. -/
theorem Recovery.Accounts.tokens_sublist (h : Accounts last ts items segments) :
    (Stmt.tokensOfEach (statementsOf items)).Sublist ts := by
  have hsegments : ∀ segments : List Segment, (∀ segment ∈ segments, ∃ next,
      segment.Accounted next) →
      (Stmt.tokensOfEach (statementsOf (segments.map Segment.item))).Sublist
        (segments.flatMap Segment.tokens) := by
    intro segments haccounted
    induction segments with
    | nil => exact List.Sublist.refl _
    | cons segment segments ih =>
      obtain ⟨⟨next, hfirst⟩, hothers⟩ := List.forall_mem_cons.1 haccounted
      rw [List.map_cons, List.flatMap_cons]
      unfold Segment.Accounted at hfirst
      split at hfirst
      · rename_i statement hitem
        rw [hitem]
        exact hfirst.tokens_sublist.append (ih hothers)
      · rename_i diagnostic hitem
        rw [hitem]
        exact (ih hothers).trans (List.sublist_append_right _ _)
  rw [← h.items_eq, ← h.tokens_eq]
  refine hsegments segments fun segment hsegment => ?_
  obtain ⟨before, after, heq⟩ := List.append_of_mem hsegment
  exact ⟨_, (h.each before segment after heq).2.2⟩

/-- A segment in front of another one does not end with an opening parenthesis. -/
theorem Recovery.Segment.endsClosed {segment : Segment} {next : Token}
    (h : segment.Accounted next) (hnext : next.kind ≠ .eof) :
    EndsWith (· ≠ .openParen) segment.tokens := by
  unfold Segment.Accounted at h
  split at h
  · exact h.endsClosed
  · obtain ⟨_, hbroken⟩ := h
    generalize segment.tokens = ts at hbroken
    cases hbroken with
    | semicolon _ hkind => exact .intro (by rw [hkind]; decide)
    | closeCurly _ hkind => exact .intro (by rw [hkind]; decide)
    | source _ heof => exact absurd heof hnext

theorem kind_nextToken (after : List Segment) (last : Token) :
    (nextToken after last).kind = firstKind (after.flatMap Segment.tokens ++ [last]) .eof := by
  rw [nextToken]
  cases after.flatMap Segment.tokens <;> rfl

/-- No parenthesis is open in front of a segment. -/
theorem Recovery.Accounts.not_open {before after : List Segment} {segment : Segment}
    (h : Accounts last ts items segments) (hts : ∀ token ∈ ts, token.kind ≠ .eof)
    (heq : segments = before ++ segment :: after) :
    ¬ EndsWith (· = .openParen) (before.flatMap Segment.tokens) := by
  rcases List.eq_nil_or_concat before with rfl | ⟨earlier, previous, rfl⟩
  · exact fun hends => hends.ne_nil rfl
  · intro hends
    have hsplit : segments = earlier ++ previous :: (segment :: after) := by rw [heq]; simp
    obtain ⟨hne, _, haccounted⟩ := h.each earlier previous _ hsplit
    have hsegment := (h.each _ segment after heq).1
    obtain ⟨first, more, hfirst⟩ := List.exists_cons_of_ne_nil hsegment
    have hnext : nextToken (segment :: after) last = first := by
      rw [nextToken, List.flatMap_cons, hfirst]
      rfl
    have hmem : first ∈ ts := by
      rw [← h.tokens_eq, heq]
      simp [hfirst]
    rw [hnext] at haccounted
    rw [List.concat_eq_append, List.flatMap_append] at hends
    have hlast := hends.of_append (by simpa using hne)
    rw [List.flatMap_singleton] at hlast
    exact EndsWith.absurd hlast (Segment.endsClosed haccounted (hts first hmem))

/-- Each statement is derived from a part of the tokens, and so are its nodes. -/
theorem Recovery.Accounts.everywhere_parts (h : Accounts last ts items segments)
    (hts : ∀ token ∈ ts, token.kind ≠ .eof) :
    Stmt.EverywhereEach (parts (ts ++ [last])) (statementsOf items) := by
  rw [Stmt.everywhereEach_iff]
  intro statement hstatement
  rw [mem_statementsOf, ← h.items_eq] at hstatement
  obtain ⟨segment, hsegment, hitem⟩ := List.mem_map.1 hstatement
  obtain ⟨before, after, heq⟩ := List.append_of_mem hsegment
  obtain ⟨_, _, haccounted⟩ := h.each before segment after heq
  rw [Segment.Accounted, hitem] at haccounted
  refine Derives.everywhere_parts haccounted (before.flatMap Segment.tokens)
    (after.flatMap Segment.tokens ++ [last]) ?_ ⟨kind_nextToken after last, ?_⟩
  · rw [← h.tokens_eq, heq]
    simp
  · exact h.not_open hts heq

end Segments

/-! ## Sources -/

section Sources

variable {σ : Type} [TokenSource σ] (source : σ)

theorem exists_accounts_start :
    ∃ segments, Accounts (Cursor.start source).last (Cursor.start source).rest
      (items standard (Cursor.start source)).1 segments :=
  exists_accounts (Cursor.start source) fun _ => opens_start source

/-- Each node of what is read is derived from a part of the tokens of the source. -/
theorem parse_everywhere_parts :
    Stmt.EverywhereEach (parts (TokenSource.tokens source)) (parse source).program.statements := by
  obtain ⟨segments, haccounts⟩ := exists_accounts_start source
  rw [← Cursor.rest_append_last_start]
  exact haccounts.everywhere_parts fun token htoken => Cursor.kind_ne_eof_of_mem_rest htoken

/-- The tokens of what is read stand in the order of the source, in front of the end. -/
theorem parse_tokens_sublist :
    (Stmt.tokensOfEach (parse source).program.statements).Sublist (Cursor.start source).rest := by
  obtain ⟨segments, haccounts⟩ := exists_accounts_start source
  exact haccounts.tokens_sublist

theorem rest_start_sublist_tokens :
    (Cursor.start source).rest.Sublist (TokenSource.tokens source) := by
  rw [← Cursor.rest_append_last_start]
  exact List.sublist_append_left _ _

end Sources

/-- The program points back at the tokens that it was read from. -/
structure PointsBack (tokens : List Token) (program : Program) : Prop where
  /-- The tokens of each node belong to it. -/
  owned : Stmt.EverywhereEach owned program.statements
  /-- The nodes hold no other tokens than these. -/
  held : Stmt.EverywhereEach (heldIn tokens) program.statements
  /-- Each node is derived from a part of the tokens, and a statement is known by the first one
  of its part. -/
  parts : Stmt.EverywhereEach (parts tokens) program.statements
  /-- The tokens of the program stand in the order of the source. -/
  listed : (Stmt.tokensOfEach program.statements).Sublist tokens
  /-- No span is empty. -/
  spans : ∀ token ∈ Stmt.tokensOfEach program.statements,
    token.start.offset < token.stop.offset
  /-- The spans follow one another. -/
  ordered : (Stmt.tokensOfEach program.statements).Pairwise fun token later =>
    token.stop.offset ≤ later.start.offset
  /-- No token is used twice. -/
  once : (Stmt.tokensOfEach program.statements).Nodup

/-- Whatever is read from a source points back at its tokens. -/
theorem parseSource_pointsBack (source : String) (file : Option String) :
    PointsBack (tokenize source file) (parseSource source file).program := by
  have htiling := (tokenize_tiling source file).1
  have hparts := parse_everywhere_parts (Scanner.ofSource source file)
  have hrest := parse_tokens_sublist (Scanner.ofSource source file)
  have hlisted := hrest.trans (rest_start_sublist_tokens _)
  have hspans : ∀ token ∈ Stmt.tokensOfEach (parseSource source file).program.statements,
      token.start.offset < token.stop.offset := fun token hmem =>
    (htiling.covers token (hlisted.subset hmem)
      (Cursor.kind_ne_eof_of_mem_rest (hrest.subset hmem))).1
  have hordered := htiling.ordered.sublist hlisted
  refine ⟨?_, Stmt.weaken_each (parts_implies_heldIn _) _ hparts, hparts, hlisted, hspans,
    hordered, ?_⟩
  · exact Stmt.everywhereEach_iff.2 fun statement hstatement =>
      statement.weaken spelt_implies_owned (spelt_of_mem_parseSource hstatement)
  · -- A token in front of itself would have an empty span.
    refine hordered.imp_of_mem fun {token later} htoken _ hle heq => ?_
    have hlt := hspans token htoken
    rw [heq] at hlt hle
    omega

end BraceLang
