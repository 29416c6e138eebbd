import BraceLang.Proofs.Parser.Rules
import BraceLang.Proofs.Syntax.Derivation

/-!
# The standard grammar and the syntax

The parser goes by the rules and powers in `Grammar.standard`, and the syntax by kinds and
levels.  The two agree: an expression begins with a token by the rule that its kind asks for
(`leading_eq_some_iff`), the operators of a level are the tokens whose power has a rank one
higher (`trailing_of_mem_operators`, `trailing_cases`), and a token makes an expression longer
just if it has a trailing rule (`not_extends_of_continuation`).
-/

namespace BraceLang.Syntax

open Grammar

/-! ## Leading rules -/

/-- The kinds of the tokens with which an expression begins by a rule. -/
def LedBy (kind : TokenKind) : LeadingRule → Prop
  | .literal =>
    kind = .identifier ∨ kind = .integer ∨ kind = .string ∨ kind = .trueWord ∨ kind = .falseWord
  | .operator => kind = .not ∨ kind = .dash
  | .group => kind = .openParen
  | .conditional => kind = .ifWord
  | .function => kind = .fnWord

theorem leading_eq_some_iff {kind : TokenKind} {rule : LeadingRule} :
    standard.leading kind = some rule ↔ LedBy kind rule := by
  constructor
  · intro h
    cases kind <;> cases h <;> simp [LedBy]
  · intro h
    cases rule with
    | literal => rcases h with rfl | rfl | rfl | rfl | rfl <;> rfl
    | operator => rcases h with rfl | rfl <;> rfl
    | group | conditional | function =>
      subst h
      rfl

/-- A token that is a literal is derived by itself. -/
theorem derives_of_literal {token : Token} {expression : Expr}
    (h : token.literal = .ok expression) : Derives (.expr 7) [token] expression := by
  unfold Token.literal at h
  split at h
  · rename_i hkind
    cases h
    exact .ident hkind
  · rename_i hkind
    split at h
    · rename_i value hvalue
      cases h
      exact .int hkind hvalue
    · cases h
  · rename_i hkind
    cases h
    exact .str hkind
  · rename_i hkind
    cases h
    exact .true hkind
  · rename_i hkind
    cases h
    exact .false hkind
  · cases h

/-! ## Statement rules -/

theorem statement_cases {kind : TokenKind} {rule : StatementRule}
    (h : standard.statement kind = some rule) :
    kind = .letWord ∧ rule = .binding ∨ kind = .returnWord ∧ rule = .result := by
  cases kind <;> cases h <;> decide

/-! ## Tokens without rules -/

/-- The standard grammar has a rule for tokens of `kind`. -/
inductive Ruled (kind : TokenKind) : Prop where
  | leading {rule : LeadingRule} (h : standard.leading kind = some rule)
  | trailing {entry : BindingPower × TrailingRule} (h : standard.trailing kind = some entry)
  | statement {rule : StatementRule} (h : standard.statement kind = some rule)

/-- Braces, semicolons and the end have no rules. -/
theorem Ruled.ne {kind : TokenKind} (h : Ruled kind) :
    kind ≠ .eof ∧ kind ≠ .semicolon ∧ kind ≠ .openCurly ∧ kind ≠ .closeCurly := by
  cases h with
  | leading hrule | trailing hrule | statement hrule =>
    cases kind <;> first | decide | cases hrule

/-! ## Trailing rules -/

/-- A trailing rule of the standard grammar is that of a binary operator, whose
power is one rank above its level, or of the parenthesis of a call. -/
theorem trailing_cases {kind : TokenKind} {power : BindingPower} {rule : TrailingRule}
    (h : standard.trailing kind = some (power, rule)) :
    (∃ level, level < 5 ∧ kind ∈ operators level ∧ power.rank = level + 1 ∧ rule = .binary) ∨
      kind = .openParen ∧ power = .call ∧ rule = .call := by
  by_cases hparen : kind = .openParen
  · subst hparen
    cases h
    exact .inr ⟨rfl, rfl, rfl⟩
  · refine .inl ⟨power.rank - 1, ?_⟩
    cases kind <;> cases h <;> first | exact absurd rfl hparen | decide

/-- A binary operator of a level has the power one rank above it. -/
theorem trailing_of_mem_operators {level : Nat} {kind : TokenKind} (h : kind ∈ operators level) :
    level < 5 ∧
      ∃ power, standard.trailing kind = some (power, .binary) ∧ power.rank = level + 1 := by
  match level with
  | 0 | 1 | 2 | 3 | 4 =>
    simp only [operators, List.mem_cons, List.not_mem_nil, or_false] at h
    refine ⟨by omega, ?_⟩
    rcases h with rfl | rfl | rfl | rfl <;> exact ⟨_, rfl, rfl⟩
  | level + 5 => cases h

/-- Where an expression above `floor` ends, the power of the next token is no
stronger than `floor`. -/
theorem rank_power_le_of_continuation {floor : BindingPower} {kind : TokenKind}
    (h : standard.continuation floor kind = none) :
    (standard.power kind).rank ≤ floor.rank := by
  unfold Grammar.power
  cases htrailing : standard.trailing kind with
  | none => exact Nat.zero_le _
  | some entry =>
    obtain ⟨power, rule⟩ := entry
    apply Nat.not_lt.1
    intro hlt
    have hsome : standard.continuation floor kind = some (power, rule) :=
      continuation_eq_some.2 ⟨htrailing, (Ruled.trailing htrailing).ne.2.1, hlt⟩
    rw [hsome] at h
    cases h

/-- An expression above `floor` ends in front of a token whose power is no stronger
than `floor`. -/
theorem continuation_of_rank_power_le {floor : BindingPower} {kind : TokenKind}
    (h : (standard.power kind).rank ≤ floor.rank) : standard.continuation floor kind = none := by
  apply Option.eq_none_iff_forall_ne_some.2
  intro entry hsome
  obtain ⟨power, rule⟩ := entry
  obtain ⟨htrailing, _, hlt⟩ := continuation_eq_some.1 hsome
  rw [Grammar.power, htrailing] at h
  exact absurd hlt (Nat.not_lt.2 h)

/-- A token extends an expression just if it has a trailing rule. -/
theorem extends_iff {kind : TokenKind} : Extends kind ↔ standard.trailing kind ≠ none := by
  constructor
  · rintro (⟨level, hlevel⟩ | rfl)
    · obtain ⟨_, power, htrailing, _⟩ := trailing_of_mem_operators hlevel
      simp [htrailing]
    · decide
  · intro h
    obtain ⟨⟨power, rule⟩, htrailing⟩ := Option.ne_none_iff_exists'.1 h
    rcases trailing_cases htrailing with ⟨level, _, hmem, _⟩ | ⟨hparen, _⟩
    · exact .inl ⟨level, hmem⟩
    · exact .inr hparen

instance (kind : TokenKind) : Decidable (Extends kind) :=
  decidable_of_iff _ extends_iff.symm

theorem power_of_not_extends {kind : TokenKind} (h : ¬ Extends kind) :
    standard.power kind = .default := by
  have htrailing : standard.trailing kind = none := Decidable.not_not.1 fun hne =>
    h (extends_iff.2 hne)
  rw [Grammar.power, htrailing]

theorem not_extends_of_continuation {kind : TokenKind}
    (h : standard.continuation .default kind = none) : ¬ Extends kind := by
  intro hextends
  obtain ⟨⟨power, rule⟩, htrailing⟩ := Option.ne_none_iff_exists'.1 (extends_iff.1 hextends)
  have hle : power.rank ≤ 0 := by
    simpa [Grammar.power, htrailing, BindingPower.rank] using rank_power_le_of_continuation h
  rcases trailing_cases htrailing with ⟨level, _, _, hrank, _⟩ | ⟨_, rfl, _⟩
  · omega
  · simp [BindingPower.rank] at hle

theorem rank_le_seven (power : BindingPower) : power.rank ≤ 7 := by
  cases power <;> decide

/-! ## First tokens -/

/-- Whether a statement can begin with a token of `kind`. -/
def BeginsStmt (kind : TokenKind) : Prop :=
  standard.leading kind ≠ none ∨ kind = .letWord ∨ kind = .returnWord

instance (kind : TokenKind) : Decidable (BeginsStmt kind) :=
  inferInstanceAs (Decidable (_ ∨ _ ∨ _))

/-- There is a first token, and `P` holds of its kind. -/
inductive BeginsWith (P : TokenKind → Prop) : List Token → Prop where
  | intro {token : Token} {ts : List Token} (h : P token.kind) : BeginsWith P (token :: ts)

theorem BeginsWith.append {P : TokenKind → Prop} {ts : List Token} (us : List Token)
    (h : BeginsWith P ts) : BeginsWith P (ts ++ us) := by
  cases h with
  | intro hkind => exact .intro hkind

theorem BeginsWith.ne_nil {P : TokenKind → Prop} {ts : List Token} (h : BeginsWith P ts) :
    ts ≠ [] := by
  cases h with
  | intro => simp

/-- What the tokens of a symbol begin with, if it is one of tokens at all. -/
def Begins (symbol : Symbol) (ts : List Token) : Prop :=
  match symbol with
  | .expr _ => BeginsWith (fun kind => standard.leading kind ≠ none) ts
  | .block => BeginsWith (· = .openCurly) ts
  | .names => BeginsWith (· = .identifier) ts
  | .stmt _ => BeginsWith BeginsStmt ts
  | .stmts _ => ts = [] ∨ BeginsWith BeginsStmt ts
  | .moreArguments => ts = [] ∨ BeginsWith (· = .comma) ts
  | .arguments | .parameters => True

theorem Derives.begins {symbol : Symbol} {ts : List Token} {tree : symbol.Tree}
    (h : Derives symbol ts tree) : Begins symbol ts := by
  induction h with
  | binary _ _ _ ihleft => exact ihleft.append _
  | tighter _ _ ih => exact ih
  | unary hkind => exact .intro (by rcases hkind with h | h <;> rw [h] <;> decide)
  | call _ _ _ _ ihcallee => exact ihcallee.append _
  | ident hkind => exact .intro (by rw [hkind]; decide)
  | int hkind => exact .intro (by rw [hkind]; decide)
  | str hkind => exact .intro (by rw [hkind]; decide)
  | true hkind => exact .intro (by rw [hkind]; decide)
  | false hkind => exact .intro (by rw [hkind]; decide)
  | group hparen => exact .intro (by rw [hparen]; decide)
  | cond hword => exact .intro (by rw [hword]; decide)
  | condElse hword => exact .intro (by rw [hword]; decide)
  | func hword => exact .intro (by rw [hword]; decide)
  | noArguments => trivial
  | someArguments => trivial
  | noMoreArguments => exact .inl rfl
  | moreArguments hcomma => exact .inr (.intro hcomma)
  | noParameters => trivial
  | someParameters => trivial
  | lastName hkind => exact .intro hkind
  | moreNames hkind => exact .intro hkind
  | block hbrace => exact .intro hbrace
  | bind hword => exact .intro (.inr (.inl hword))
  | ret hword => exact .intro (.inr (.inr hword))
  | bareRet hword => exact .intro (.inr (.inr hword))
  | expr _ _ ihvalue =>
    cases ihvalue with
    | intro hkind => exact .intro (.inl hkind)
  | noStmts => exact .inl rfl
  | moreStmts _ _ ihfirst => exact .inr (ihfirst.append _)

/-! ## Last tokens -/

/-- There is a last token, and `P` holds of its kind. -/
inductive EndsWith (P : TokenKind → Prop) : List Token → Prop where
  | intro {ts : List Token} {token : Token} (h : P token.kind) : EndsWith P (ts ++ [token])

/-- Tokens end in one way only. -/
theorem endsWith_concat {P : TokenKind → Prop} {ts : List Token} {token : Token} :
    EndsWith P (ts ++ [token]) ↔ P token.kind := by
  refine ⟨fun h => ?_, .intro⟩
  generalize hus : ts ++ [token] = us at h
  cases h with
  | intro hkind =>
    obtain ⟨_, hlast⟩ := List.append_inj' hus rfl
    cases hlast
    exact hkind

theorem EndsWith.ne_nil {P : TokenKind → Prop} {ts : List Token} (h : EndsWith P ts) :
    ts ≠ [] := by
  cases h
  simp

theorem EndsWith.append {P : TokenKind → Prop} {us : List Token} (ts : List Token)
    (h : EndsWith P us) : EndsWith P (ts ++ us) := by
  cases h with
  | intro hkind =>
    rw [← List.append_assoc]
    exact .intro hkind

theorem EndsWith.cons {P : TokenKind → Prop} {ts : List Token} (token : Token)
    (h : EndsWith P ts) : EndsWith P (token :: ts) :=
  h.append [token]

theorem EndsWith.single {P : TokenKind → Prop} {token : Token} (h : P token.kind) :
    EndsWith P [token] :=
  @EndsWith.intro P [] token h

theorem EndsWith.of_append {P : TokenKind → Prop} {ts us : List Token} (h : EndsWith P (ts ++ us))
    (hus : us ≠ []) : EndsWith P us := by
  rw [← List.dropLast_concat_getLast hus, ← List.append_assoc, endsWith_concat] at h
  rw [← List.dropLast_concat_getLast hus, endsWith_concat]
  exact h

theorem EndsWith.absurd {kind : TokenKind} {ts : List Token} (h : EndsWith (· = kind) ts)
    (h' : EndsWith (· ≠ kind) ts) : False := by
  cases h with
  | intro hkind => exact endsWith_concat.1 h' hkind

/-- What the tokens of a symbol do not end with. -/
def Symbol.EndsOpen (symbol : Symbol) (ts : List Token) : Prop :=
  match symbol with
  | .expr _ | .block => EndsWith (· ≠ .semicolon) ts
  | _ => True

/-- No expression ends with a semicolon. -/
theorem Derives.endsOpen {symbol : Symbol} {ts : List Token} {tree : symbol.Tree}
    (h : Derives symbol ts tree) : symbol.EndsOpen ts := by
  induction h with
  | binary _ _ _ _ ihright => exact (ihright.cons _).append _
  | tighter _ _ ih => exact ih
  | unary _ _ ih => exact ih.cons _
  | call _ _ _ hclose => exact ((EndsWith.intro (by rw [hclose]; decide)).cons _).append _
  | ident hkind => exact .single (by rw [hkind]; decide)
  | int hkind => exact .single (by rw [hkind]; decide)
  | str hkind => exact .single (by rw [hkind]; decide)
  | true hkind => exact .single (by rw [hkind]; decide)
  | false hkind => exact .single (by rw [hkind]; decide)
  | group _ _ hclose => exact (EndsWith.intro (by rw [hclose]; decide)).cons _
  | cond _ _ _ _ ihconsequence => exact (ihconsequence.append _).cons _
  | condElse _ _ _ _ _ _ _ ihalternative =>
      exact (((ihalternative.cons _).append _).append _).cons _
  | func _ _ _ _ _ _ ihbody => exact (((ihbody.cons _).append _).cons _).cons _
  | block _ _ hclose => exact (EndsWith.intro (by rw [hclose]; decide)).cons _
  | _ => trivial

/-! ## Optional semicolons -/

/-- One semicolon, or nothing. -/
inductive OptionalSemicolon : List Token → Prop where
  | semicolon (token : Token) (h : token.kind = .semicolon) : OptionalSemicolon [token]
  | omitted : OptionalSemicolon []

theorem Terminator.optional {follow : TokenKind} {ts : List Token} (h : Terminator follow ts) :
    OptionalSemicolon ts := by
  cases h with
  | semicolon token hkind => exact .semicolon token hkind
  | omitted => exact .omitted

theorem BareTerminator.optional {follow : TokenKind} {ts : List Token}
    (h : BareTerminator follow ts) : OptionalSemicolon ts := by
  cases h with
  | semicolon token hkind => exact .semicolon token hkind
  | omitted => exact .omitted

theorem OptionalSemicolon.ne_eof {ts : List Token} (h : OptionalSemicolon ts) :
    ∀ token ∈ ts, token.kind ≠ .eof := by
  cases h with
  | semicolon token hkind => simp [hkind]
  | omitted => simp

/-! ## Kinds at the beginning -/

theorem ne_closeParen_of_leading {kind : TokenKind} (h : standard.leading kind ≠ none) :
    kind ≠ .closeParen := by
  intro heq
  subst heq
  exact h rfl

theorem statement_of_leading {kind : TokenKind} (h : standard.leading kind ≠ none) :
    standard.statement kind = none := by
  cases kind <;> first | rfl | exact absurd rfl h

theorem endsBareResult_of_leading {kind : TokenKind} (h : standard.leading kind ≠ none) :
    Descent.endsBareResult kind = false := by
  cases kind <;> first | rfl | exact absurd rfl h

theorem BeginsStmt.ne {kind : TokenKind} (h : BeginsStmt kind) :
    kind ≠ .eof ∧ kind ≠ .semicolon ∧ kind ≠ .closeCurly ∧ kind ≠ .elseWord := by
  refine ⟨?_, ?_, ?_, ?_⟩ <;>
  · rintro rfl
    exact absurd h (by decide)

end BraceLang.Syntax
