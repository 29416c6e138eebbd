import BraceLang.Proofs.Syntax.Sound

/-!
# What is derived is read

Tokens that are derived from a symbol are read by the entry point of that symbol,
which gives the tree of the derivation (`recovers_of_derives`).  This depends on
the token that follows: it must not go on with what was read (`MayFollow`).

For an expression, the statement is one about the middle of a run: reading it
above a floor comes down to going on with its tree, `chain`, from its last token.
So the left operand of an operator is read by the same loop that takes the
operator, and the two levels never have to be told apart.
-/

namespace BraceLang.Syntax

open Grammar Descent TokenKind Outcome

variable {σ : Type} [TokenSource σ] {start middle cursor moved : Cursor σ}
  {ts us : List Token} {level : Nat} {floor power : BindingPower}

/-! ## Single steps -/

theorem expr_of_lead {rule : LeadingRule} {left : Expr}
    (hrule : standard.leading start.current.kind = some rule)
    (h : (reader standard).lead rule start = .ok left moved) :
    (reader standard).expr floor start = (reader standard).chain floor left moved := by
  apply eq_of_ensures
  intro stopped ok bad hchain
  rw [reader_expr standard_stopsAtEnd, ensures_exprStep, hrule]
  refine ⟨fun rule' hrule' => ?_, fun hnone => absurd hnone (by simp)⟩
  cases hrule'
  rw [h]
  exact hchain

theorem chain_of_trail {rule : TrailingRule} {left longer : Expr}
    (hrule : standard.continuation floor cursor.peek.kind = some (power, rule))
    (h : (reader standard).trail left power rule cursor.advance = .ok longer moved) :
    (reader standard).chain floor left cursor = (reader standard).chain floor longer moved := by
  apply eq_of_ensures
  intro stopped ok bad hchain
  rw [reader_chain standard_stopsAtEnd, ensures_chainStep, hrule]
  refine ⟨fun power' rule' hrule' => ?_, fun hnone => absurd hnone (by simp)⟩
  cases hrule'
  rw [h]
  exact hchain

theorem stmt_of_rule {rule : StatementRule} {statement : Stmt}
    (hrule : standard.statement start.current.kind = some rule)
    (h : (reader standard).statement rule start = .ok statement moved) :
    (reader standard).stmt start = .ok statement moved := by
  apply eq_ok_of_ensures
  rw [reader_stmt standard_stopsAtEnd, ensures_stmtStep, hrule]
  refine ⟨fun rule' hrule' => ?_, fun hnone => absurd hnone (by simp)⟩
  cases hrule'
  rw [h]
  exact ⟨rfl, rfl⟩

theorem chain_of_stop {left : Expr}
    (h : standard.continuation floor cursor.peek.kind = none) :
    (reader standard).chain floor left cursor = .ok left cursor := by
  apply eq_ok_of_ensures
  rw [reader_chain standard_stopsAtEnd, ensures_chainStep, h]
  exact ⟨fun _ _ hsome => (by cases hsome), fun _ => ⟨rfl, rfl⟩⟩

/-! ## What is to be read -/

/-- A token of `kind` does not go on with an expression of the level, if that is
read above a floor that is no stronger. -/
structure MayFollow (level : Nat) (kind : TokenKind) : Prop where
  ne_else : kind ≠ .elseWord
  power_le : (standard.power kind).rank ≤ level + 1

/-- An operator may follow its left operand, as far as the operand goes. -/
theorem mayFollow_of_mem_operators {kind : TokenKind} (h : kind ∈ operators level) :
    MayFollow level kind := by
  obtain ⟨_, power, htrailing, hrank⟩ := trailing_of_mem_operators h
  refine ⟨fun helse => ?_, ?_⟩
  · rw [helse] at htrailing
    cases htrailing
  · rw [Grammar.power, htrailing]
    exact Nat.le_of_eq hrank

/-- A token of the kind `follow` is not read as a part of the statement `ts`, either
because it cannot be or because the statement is closed. -/
def MayFollowStmt (ts : List Token) (follow : TokenKind) : Prop :=
  EndsWith (· = .semicolon) ts ∨ follow ≠ .elseWord ∧ follow ≠ .semicolon

/-- Statements that are read one after the other, from `start` up to, and without,
the current token of `cursor`. -/
inductive ReadsStmts : Cursor σ → List Stmt → Cursor σ → Prop where
  | none (cursor : Cursor σ) : ReadsStmts cursor [] cursor
  | more {start moved cursor : Cursor σ} {first : Stmt} {others : List Stmt}
      (hbegins : BeginsStmt start.current.kind)
      (hfirst : (reader standard).stmt start = .ok first moved)
      (hothers : ReadsStmts moved.advance others cursor) :
      ReadsStmts start (first :: others) cursor

/-- The tokens are read as the tree, wherever they stand. -/
def Recovers (σ : Type) [TokenSource σ] (symbol : Symbol) (ts : List Token)
    (tree : symbol.Tree) : Prop :=
  match symbol, tree with
  | .expr level, expression => ∀ start moved : Cursor σ, start.Reads ts moved →
      MayFollow level moved.peek.kind →
      ∀ floor : BindingPower, floor.rank ≤ 6 → floor.rank ≤ level ∨ 5 ≤ level →
        (reader standard).expr floor start = (reader standard).chain floor expression moved
  | .arguments, arguments => ∀ (start moved : Cursor σ) (close : Token),
      start.advance.Reads (ts ++ [close]) moved → close.kind = .closeParen →
      (reader standard).argumentList start = .ok arguments moved
  | .moreArguments, others => ∀ (start moved : Cursor σ) (close : Token),
      start.advance.Reads (ts ++ [close]) moved → close.kind = .closeParen →
      ∃ last, (reader standard).arguments start = .ok others last ∧ last.advance = moved
  | .parameters, names => ∀ (start moved : Cursor σ) (close : Token),
      start.advance.Reads (ts ++ [close]) moved → close.kind = .closeParen →
      (reader standard).parameterList start = .ok names moved
  | .names, names => ∀ start moved : Cursor σ, start.advance.Reads ts moved →
      moved.peek.kind ≠ .comma → (reader standard).parameters start = .ok names moved
  | .block, block => ∀ start moved : Cursor σ, start.Reads ts moved →
      (reader standard).block start = .ok block moved
  | .stmt follow, read => ∀ start moved : Cursor σ, start.Reads ts moved →
      moved.peek.kind = follow → MayFollowStmt ts follow →
      (reader standard).stmt start = .ok read moved
  | .stmts follow, body => ∀ start moved : Cursor σ,
      start.Passes (fun place => place.current.kind ≠ .eof) ts moved →
      moved.current.kind = follow → follow = .closeCurly ∨ follow = .eof →
      ReadsStmts start body moved

/-- The first token of a reading is the current one where it starts. -/
theorem BeginsWith.current {P : TokenKind → Prop} (h : BeginsWith P ts)
    (hreads : start.Reads ts cursor) : P start.current.kind := by
  cases h with
  | intro hkind => cases hreads <;> exact hkind

/-- Optional tokens that begin with one kind stand in front of a token of
another. -/
theorem kind_of_optional {kind kind' : TokenKind} {token : Token}
    (h : us = [] ∨ BeginsWith (· = kind) us) (htoken : token.kind = kind')
    (hreads : start.Reads (us ++ [token]) cursor) :
    start.current.kind = kind ∨ start.current.kind = kind' := by
  rcases h with rfl | hbegins
  · obtain ⟨rfl, rfl, _⟩ := Cursor.reads_singleton.1 hreads
    exact .inr htoken
  · exact .inl ((hbegins.append _).current hreads)

namespace Recovers

/-- An expression above a floor, in front of a token that does not bind stronger. -/
theorem above {expression : Expr} (h : Recovers σ (.expr level) ts expression)
    (floor : BindingPower) (hreads : start.Reads ts moved)
    (hfollow : MayFollow level moved.peek.kind)
    (hsix : floor.rank ≤ 6) (hfloor : floor.rank ≤ level ∨ 5 ≤ level)
    (hpower : (standard.power moved.peek.kind).rank ≤ floor.rank) :
    (reader standard).expr floor start = .ok expression moved := by
  rw [h start moved hreads hfollow floor hsix hfloor]
  exact chain_of_stop (continuation_of_rank_power_le hpower)

/-- An expression in front of a token that binds nothing. -/
theorem whole {expression : Expr} (h : Recovers σ (.expr 0) ts expression)
    (hreads : start.Reads ts moved) (helse : moved.peek.kind ≠ .elseWord)
    (hpower : standard.power moved.peek.kind = .default) :
    (reader standard).expr .default start = .ok expression moved := by
  have hrank : (standard.power moved.peek.kind).rank = 0 := by
    rw [hpower]
    rfl
  exact h.above .default hreads ⟨helse, by omega⟩ (by decide)
    (.inl (Nat.le_refl 0)) (by rw [hrank]; exact Nat.zero_le _)

/-! ## Expressions -/

theorem binary {operator : Token} {left right : Expr}
    (hkind : operator.kind ∈ operators level) (hts : ts ≠ []) (hus : us ≠ [])
    (hleft : Recovers σ (.expr level) ts left) (hright : Recovers σ (.expr (level + 1)) us right) :
    Recovers σ (.expr level) (ts ++ operator :: us)
      (Expr.binary operator operator.text left right) := by
  intro start moved hreads hfollow floor hsix hfloor
  obtain ⟨hfive, power, htrailing, hrank⟩ := trailing_of_mem_operators hkind
  obtain ⟨middle, hreadsLeft, hreadsMore⟩ := hreads.split hts (by simp)
  obtain ⟨rfl, _, hreadsRight⟩ := (Cursor.reads_cons hus).1 hreadsMore
  have hle := hfollow.power_le
  rw [hleft start middle hreadsLeft (mayFollow_of_mem_operators hkind) floor hsix hfloor]
  refine chain_of_trail (continuation_eq_some.2
    ⟨htrailing, (Ruled.trailing htrailing).ne.2.1, ?_⟩) (eq_ok_of_ensures (ensures_binary.2 ?_))
  · show floor.rank < power.rank
    omega
  · rw [hright.above power hreadsRight ⟨hfollow.ne_else, by omega⟩ (by omega)
      (.inl (by omega)) (by omega)]
    exact ⟨rfl, rfl⟩

theorem tighter {expression : Expr} (h : Recovers σ (.expr (level + 1)) ts expression) :
    Recovers σ (.expr level) ts expression := by
  intro start moved hreads hfollow floor hsix hfloor
  have hle := hfollow.power_le
  exact h start moved hreads ⟨hfollow.ne_else, by omega⟩ floor hsix (by omega)

theorem unary {operator : Token} {operand : Expr}
    (hkind : operator.kind = .not ∨ operator.kind = .dash) (hts : ts ≠ [])
    (hoperand : Recovers σ (.expr 5) ts operand) :
    Recovers σ (.expr 5) (operator :: ts) (Expr.unary operator operator.text operand) := by
  intro start moved hreads hfollow floor hsix hfloor
  obtain ⟨rfl, _, hreadsOperand⟩ := (Cursor.reads_cons hts).1 hreads
  have hrule : standard.leading start.current.kind = some .operator := leading_eq_some_iff.2 hkind
  refine expr_of_lead hrule (eq_ok_of_ensures (ensures_operator.2 ?_))
  rw [hoperand.above .unary hreadsOperand hfollow (by decide) (.inr (by decide)) hfollow.power_le]
  exact ⟨rfl, rfl⟩

/-- A token that is a literal is read as what it is. -/
theorem literal {token : Token} {expression : Expr}
    (hrule : standard.leading token.kind = some .literal)
    (h : token.literal = .ok expression) : Recovers σ (.expr 7) [token] expression := by
  intro start moved hreads _ floor _ _
  obtain ⟨rfl, rfl, _⟩ := Cursor.reads_singleton.1 hreads
  refine expr_of_lead hrule (eq_ok_of_ensures
    (ensures_literal.2 ⟨fun expression' h' => ?_, fun cause h' => ?_⟩))
  · rw [h] at h'
    cases h'
    exact ⟨rfl, rfl⟩
  · rw [h] at h'
    cases h'

theorem group {paren close : Token} {expression : Expr} (hparen : paren.kind = .openParen)
    (hts : ts ≠ []) (h : Recovers σ (.expr 0) ts expression) (hclose : close.kind = .closeParen) :
    Recovers σ (.expr 7) (paren :: (ts ++ [close])) expression := by
  intro start moved hreads _ floor _ _
  obtain ⟨rfl, _, hreadsInner⟩ := (Cursor.reads_cons (by simp)).1 hreads
  obtain ⟨middle, hreadsTs, hlast⟩ := hreadsInner.split hts (by simp)
  obtain ⟨rfl, rfl, _⟩ := Cursor.reads_singleton.1 hlast
  have hpeek : middle.peek.kind = .closeParen := hclose
  have hrule : standard.leading start.current.kind = some .group := leading_eq_some_iff.2 hparen
  refine expr_of_lead hrule (eq_ok_of_ensures (ensures_group.2 ?_))
  rw [h.whole hreadsTs (by rw [hpeek]; decide) (by rw [hpeek]; rfl)]
  exact ⟨fun _ => ⟨rfl, rfl⟩, fun hne => absurd hpeek hne⟩

theorem call {paren close : Token} {callee : Expr} {args : List Expr} (hts : ts ≠ [])
    (hcallee : Recovers σ (.expr 6) ts callee) (hparen : paren.kind = .openParen)
    (hargs : Recovers σ .arguments us args) (hclose : close.kind = .closeParen) :
    Recovers σ (.expr 6) (ts ++ paren :: (us ++ [close])) (Expr.call paren callee args) := by
  intro start moved hreads _ floor hsix _
  obtain ⟨middle, hreadsCallee, hreadsMore⟩ := hreads.split hts (by simp)
  obtain ⟨rfl, _, hreadsArgs⟩ := (Cursor.reads_cons (by simp)).1 hreadsMore
  have hpeek : middle.peek.kind = .openParen := hparen
  have hrule : standard.continuation floor middle.peek.kind = some (.call, .call) := by
    refine continuation_eq_some.2 ⟨by rw [hpeek]; rfl, by rw [hpeek]; decide, ?_⟩
    exact Nat.lt_succ_of_le hsix
  rw [hcallee start middle hreadsCallee ⟨by rw [hpeek]; decide, by rw [hpeek]; decide⟩ floor hsix
    (.inr (by decide))]
  refine chain_of_trail hrule (eq_ok_of_ensures (ensures_call.2 ?_))
  rw [hargs middle.advance moved close hreadsArgs hclose]
  exact ⟨rfl, rfl⟩

/-- A condition in front of a block, and the block. -/
theorem conditionAndBlock {condition : Expr} {body : Block} (hts : ts ≠ [])
    (hcondition : Recovers σ (.expr 0) ts condition) (hus : BeginsWith (· = .openCurly) us)
    (hbody : Recovers σ .block us body) (hreads : start.Reads (ts ++ us) moved) :
    ∃ tested, (reader standard).expr .default start = .ok condition tested ∧
      tested.peek.kind = .openCurly ∧ (reader standard).block tested.advance = .ok body moved := by
  obtain ⟨tested, hreadsTs, hreadsUs⟩ := hreads.split hts hus.ne_nil
  have hpeek : tested.peek.kind = .openCurly := hus.current hreadsUs
  exact ⟨tested, hcondition.whole hreadsTs (by rw [hpeek]; decide) (by rw [hpeek]; rfl), hpeek,
    hbody tested.advance moved hreadsUs⟩

theorem cond {word : Token} {condition : Expr} {consequence : Block}
    (hword : word.kind = .ifWord) (hts : ts ≠ [])
    (hcondition : Recovers σ (.expr 0) ts condition) (hus : BeginsWith (· = .openCurly) us)
    (hconsequence : Recovers σ .block us consequence) :
    Recovers σ (.expr 7) (word :: (ts ++ us)) (Expr.cond word condition consequence none) := by
  intro start moved hreads hfollow floor _ _
  obtain ⟨rfl, _, hreadsMore⟩ := (Cursor.reads_cons (by simp [hts])).1 hreads
  obtain ⟨tested, htested, hopen, hblock⟩ :=
    conditionAndBlock hts hcondition hus hconsequence hreadsMore
  have hrule : standard.leading start.current.kind = some .conditional :=
    leading_eq_some_iff.2 hword
  refine expr_of_lead hrule (eq_ok_of_ensures (ensures_conditional.2 ?_))
  rw [htested]
  refine ⟨fun _ => ?_, fun hne => absurd hopen hne⟩
  rw [hblock]
  exact ensures_alternative.2 ⟨fun helse => absurd helse hfollow.ne_else, fun _ => ⟨rfl, rfl⟩⟩

theorem condElse {vs : List Token} {word other : Token} {condition : Expr}
    {consequence alternative : Block} (hword : word.kind = .ifWord) (hts : ts ≠ [])
    (hcondition : Recovers σ (.expr 0) ts condition) (hus : BeginsWith (· = .openCurly) us)
    (hconsequence : Recovers σ .block us consequence) (hother : other.kind = .elseWord)
    (hvs : BeginsWith (· = .openCurly) vs) (halternative : Recovers σ .block vs alternative) :
    Recovers σ (.expr 7) (word :: (ts ++ (us ++ other :: vs)))
      (Expr.cond word condition consequence (some alternative)) := by
  intro start moved hreads _ floor _ _
  obtain ⟨rfl, _, hreadsMore⟩ := (Cursor.reads_cons (by simp)).1 hreads
  rw [← List.append_assoc] at hreadsMore
  obtain ⟨first, hreadsFirst, hreadsElse⟩ := hreadsMore.split (by simp [hts]) (by simp)
  obtain ⟨rfl, _, hreadsVs⟩ := (Cursor.reads_cons hvs.ne_nil).1 hreadsElse
  obtain ⟨tested, htested, hopen, hblock⟩ :=
    conditionAndBlock hts hcondition hus hconsequence hreadsFirst
  have hbrace : first.advance.peek.kind = .openCurly := hvs.current hreadsVs
  have hrule : standard.leading start.current.kind = some .conditional :=
    leading_eq_some_iff.2 hword
  refine expr_of_lead hrule (eq_ok_of_ensures (ensures_conditional.2 ?_))
  rw [htested]
  refine ⟨fun _ => ?_, fun hne => absurd hopen hne⟩
  rw [hblock]
  refine ensures_alternative.2 ⟨fun _ => ⟨fun _ => ?_, fun hne => absurd hbrace hne⟩,
    fun hne => absurd hother hne⟩
  rw [halternative first.advance.advance moved hreadsVs]
  exact ⟨rfl, rfl⟩

theorem func {word paren close : Token} {names : List Identifier} {body : Block}
    (hword : word.kind = .fnWord) (hparen : paren.kind = .openParen)
    (hnames : Recovers σ .parameters ts names) (hclose : close.kind = .closeParen)
    (hus : BeginsWith (· = .openCurly) us) (hbody : Recovers σ .block us body) :
    Recovers σ (.expr 7) (word :: paren :: (ts ++ close :: us)) (Expr.func word names body) := by
  intro start moved hreads _ floor _ _
  obtain ⟨rfl, _, hreadsMore⟩ := (Cursor.reads_cons (by simp)).1 hreads
  obtain ⟨rfl, _, hreadsList⟩ := (Cursor.reads_cons (by simp)).1 hreadsMore
  rw [List.append_cons] at hreadsList
  obtain ⟨listed, hreadsNames, hreadsBody⟩ := hreadsList.split (by simp) hus.ne_nil
  have hopen : listed.peek.kind = .openCurly := hus.current hreadsBody
  have hrule : standard.leading start.current.kind = some .function := leading_eq_some_iff.2 hword
  refine expr_of_lead hrule (eq_ok_of_ensures (ensures_function.2
    ⟨fun _ => ?_, fun hne => absurd hparen hne⟩))
  rw [hnames start.advance listed close hreadsNames hclose]
  refine ⟨fun _ => ?_, fun hne => absurd hopen hne⟩
  rw [hbody listed.advance moved hreadsBody]
  exact ⟨rfl, rfl⟩

/-! ## Lists -/

theorem noArguments : Recovers σ .arguments [] [] := by
  intro start moved close hreads hclose
  obtain ⟨rfl, rfl, _⟩ := Cursor.reads_singleton.1 hreads
  exact eq_ok_of_ensures
    (ensures_argumentList.2 ⟨fun _ => ⟨rfl, rfl⟩, fun hne => absurd hclose hne⟩)

theorem someArguments {first : Expr} {others : List Expr}
    (hts : BeginsWith (fun kind => standard.leading kind ≠ none) ts)
    (hfirst : Recovers σ (.expr 0) ts first) (hus : us = [] ∨ BeginsWith (· = .comma) us)
    (hothers : Recovers σ .moreArguments us others) :
    Recovers σ .arguments (ts ++ us) (first :: others) := by
  intro start moved close hreads hclose
  rw [List.append_assoc] at hreads
  have hpeek : start.peek.kind ≠ .closeParen :=
    ne_closeParen_of_leading ((hts.append _).current hreads)
  obtain ⟨one, hreadsFirst, hreadsMore⟩ := hreads.split hts.ne_nil (by simp)
  obtain ⟨last, hlast, rfl⟩ := hothers one moved close hreadsMore hclose
  have hpower : standard.power one.peek.kind = .default ∧ one.peek.kind ≠ .elseWord := by
    rcases kind_of_optional hus hclose hreadsMore with h | h <;>
      rw [show one.peek.kind = _ from h] <;> exact ⟨rfl, by decide⟩
  have hlastPeek : last.peek.kind = .closeParen := by
    rw [show last.peek = close from hreadsMore.init.2]
    exact hclose
  refine eq_ok_of_ensures (ensures_argumentList.2 ⟨fun h => absurd h hpeek, fun _ => ?_⟩)
  rw [hfirst.whole hreadsFirst hpower.2 hpower.1, ensures_ok, hlast]
  exact ⟨fun _ => ⟨rfl, rfl⟩, fun hne => absurd hlastPeek hne⟩

theorem noMoreArguments : Recovers σ .moreArguments [] [] := by
  intro start moved close hreads hclose
  obtain ⟨rfl, rfl, _⟩ := Cursor.reads_singleton.1 hreads
  have hpeek : start.peek.kind ≠ .comma := by
    rw [show start.peek.kind = _ from hclose]
    decide
  refine ⟨start, eq_ok_of_ensures ?_, rfl⟩
  rw [reader_arguments standard_stopsAtEnd]
  exact ensures_argumentsStep.2 ⟨fun h => absurd h hpeek, fun _ => ⟨rfl, rfl⟩⟩

theorem moreArguments {comma : Token} {first : Expr} {others : List Expr}
    (hcomma : comma.kind = .comma) (hts : ts ≠ []) (hfirst : Recovers σ (.expr 0) ts first)
    (hus : us = [] ∨ BeginsWith (· = .comma) us) (hothers : Recovers σ .moreArguments us others) :
    Recovers σ .moreArguments (comma :: (ts ++ us)) (first :: others) := by
  intro start moved close hreads hclose
  rw [List.cons_append, List.append_assoc] at hreads
  obtain ⟨rfl, _, hreadsList⟩ := (Cursor.reads_cons (by simp)).1 hreads
  obtain ⟨one, hreadsFirst, hreadsMore⟩ := hreadsList.split hts (by simp)
  obtain ⟨last, hlast, rfl⟩ := hothers one moved close hreadsMore hclose
  have hpower : standard.power one.peek.kind = .default ∧ one.peek.kind ≠ .elseWord := by
    rcases kind_of_optional hus hclose hreadsMore with h | h <;>
      rw [show one.peek.kind = _ from h] <;> exact ⟨rfl, by decide⟩
  refine ⟨last, eq_ok_of_ensures ?_, rfl⟩
  rw [reader_arguments standard_stopsAtEnd]
  refine ensures_argumentsStep.2 ⟨fun _ => ?_, fun hne => absurd hcomma hne⟩
  rw [hfirst.whole hreadsFirst hpower.2 hpower.1, ensures_ok, hlast]
  exact ⟨rfl, rfl⟩

theorem noParameters : Recovers σ .parameters [] [] := by
  intro start moved close hreads hclose
  obtain ⟨rfl, rfl, _⟩ := Cursor.reads_singleton.1 hreads
  exact eq_ok_of_ensures
    (ensures_parameterList.2 ⟨fun _ => ⟨rfl, rfl⟩, fun hne => absurd hclose hne⟩)

theorem someParameters {names : List Identifier} (hts : BeginsWith (· = .identifier) ts)
    (hnames : Recovers σ .names ts names) : Recovers σ .parameters ts names := by
  intro start moved close hreads hclose
  have hpeek : start.peek.kind = .identifier := (hts.append _).current hreads
  obtain ⟨last, hreadsNames, hreadsClose⟩ := hreads.split hts.ne_nil (by simp)
  obtain ⟨rfl, rfl, _⟩ := Cursor.reads_singleton.1 hreadsClose
  have hlastPeek : last.peek.kind = .closeParen := hclose
  refine eq_ok_of_ensures (ensures_parameterList.2 ⟨fun h => ?_, fun _ => ?_⟩)
  · rw [hpeek] at h
    cases h
  · rw [hnames start last hreadsNames (by rw [hlastPeek]; decide)]
    exact ⟨fun _ => ⟨rfl, rfl⟩, fun hne => absurd hlastPeek hne⟩

theorem lastName {token : Token} (hkind : token.kind = .identifier) :
    Recovers σ .names [token] [⟨token, token.text⟩] := by
  intro start moved hreads hcomma
  obtain ⟨rfl, rfl, _⟩ := Cursor.reads_singleton.1 hreads
  apply eq_ok_of_ensures
  rw [reader_parameters standard_stopsAtEnd]
  exact ensures_parametersStep.2 ⟨fun _ => ⟨fun h => absurd h hcomma, fun _ => ⟨rfl, rfl⟩⟩,
    fun hne => absurd hkind hne⟩

theorem moreNames {token comma : Token} {names : List Identifier}
    (hkind : token.kind = .identifier) (hcomma : comma.kind = .comma) (hts : ts ≠ [])
    (hnames : Recovers σ .names ts names) :
    Recovers σ .names (token :: comma :: ts) (⟨token, token.text⟩ :: names) := by
  intro start moved hreads hend
  obtain ⟨rfl, _, hreadsMore⟩ := (Cursor.reads_cons (by simp)).1 hreads
  obtain ⟨rfl, _, hreadsNames⟩ := (Cursor.reads_cons hts).1 hreadsMore
  apply eq_ok_of_ensures
  rw [reader_parameters standard_stopsAtEnd]
  refine ensures_parametersStep.2 ⟨fun _ => ⟨fun _ => ?_, fun hne => absurd hcomma hne⟩,
    fun hne => absurd hkind hne⟩
  rw [hnames start.advance.advance moved hreadsNames hend]
  exact ⟨rfl, rfl⟩

/-! ## Statements -/

/-- What stands in front of the end of a statement, if this is one semicolon or nothing. -/
theorem exists_skip_of_optional (P : TokenKind → Prop) (hts : ts ≠ [])
    (hend : OptionalSemicolon us) (hreads : start.Reads (ts ++ us) moved)
    (hsemicolon : P .semicolon)
    (homitted : us = [] → moved.peek.kind ≠ .semicolon ∧ P moved.peek.kind) :
    ∃ last, start.Reads ts last ∧ last.skipOptional .semicolon = moved ∧ P last.peek.kind := by
  cases hend with
  | semicolon token hkind =>
    obtain ⟨last, hreadsTs, hreadsEnd⟩ := hreads.split hts (by simp)
    obtain ⟨rfl, rfl, _⟩ := Cursor.reads_singleton.1 hreadsEnd
    have hpeek : last.peek.kind = .semicolon := hkind
    refine ⟨last, hreadsTs, by rw [Cursor.skipOptional, if_pos hpeek], ?_⟩
    rw [hpeek]
    exact hsemicolon
  | omitted =>
    obtain ⟨hne, hholds⟩ := homitted rfl
    rw [List.append_nil] at hreads
    exact ⟨moved, hreads, by rw [Cursor.skipOptional, if_neg hne], hholds⟩

/-- The end of a statement that ends with an expression. -/
theorem exists_skip_of_terminator {follow : TokenKind} (hts : ts ≠ [])
    (hend : Terminator follow us) (hreads : start.Reads (ts ++ us) moved)
    (hpeek : moved.peek.kind = follow)
    (hfollow : us = [] → follow ≠ .elseWord ∧ follow ≠ .semicolon) :
    ∃ last, start.Reads ts last ∧ last.skipOptional .semicolon = moved ∧
      last.peek.kind ≠ .elseWord ∧ standard.power last.peek.kind = .default := by
  subst hpeek
  refine exists_skip_of_optional (fun kind => kind ≠ .elseWord ∧ standard.power kind = .default)
    hts hend.optional hreads ⟨by decide, rfl⟩ fun hnil => ?_
  obtain ⟨helse, hsemicolon⟩ := hfollow hnil
  subst hnil
  cases hend with
  | omitted hextends => exact ⟨hsemicolon, helse, power_of_not_extends hextends⟩

/-- The end of a result without a value. -/
theorem exists_skip_of_bareTerminator {follow : TokenKind} (hts : ts ≠ [])
    (hend : BareTerminator follow us) (hreads : start.Reads (ts ++ us) moved)
    (hpeek : moved.peek.kind = follow)
    (hfollow : us = [] → follow ≠ .elseWord ∧ follow ≠ .semicolon) :
    ∃ last, start.Reads ts last ∧ last.skipOptional .semicolon = moved ∧
      endsBareResult last.peek.kind = true := by
  subst hpeek
  refine exists_skip_of_optional (fun kind => endsBareResult kind = true)
    hts hend.optional hreads rfl fun hnil => ?_
  refine ⟨(hfollow hnil).2, ?_⟩
  subst hnil
  cases hend with
  | omitted hends => rcases hends with h | h | h <;> rw [h] <;> rfl

/-- A statement that leaves out its semicolon depends on the token that
follows. -/
theorem follow_of_open {follow : TokenKind} (hopen : EndsWith (· ≠ .semicolon) ts)
    (h : MayFollowStmt (ts ++ us) follow) :
    us = [] → follow ≠ .elseWord ∧ follow ≠ .semicolon := by
  intro heq
  subst heq
  rw [List.append_nil] at h
  exact h.resolve_left fun hends => hends.absurd hopen

theorem bind {follow : TokenKind} {word name sign : Token} {value : Expr}
    (hword : word.kind = .letWord) (hname : name.kind = .identifier)
    (hsign : sign.kind = .assignment) (hts : ts ≠ []) (hopen : EndsWith (· ≠ .semicolon) ts)
    (hvalue : Recovers σ (.expr 0) ts value) (hend : Terminator follow us) :
    Recovers σ (.stmt follow) (word :: name :: sign :: (ts ++ us))
      (Stmt.bind word ⟨name, name.text⟩ value) := by
  intro start moved hreads hpeek hfollow
  have homitted := follow_of_open (((hopen.cons sign).cons name).cons word) hfollow
  obtain ⟨rfl, _, hreadsName⟩ := (Cursor.reads_cons (by simp)).1 hreads
  obtain ⟨rfl, _, hreadsSign⟩ := (Cursor.reads_cons (by simp)).1 hreadsName
  obtain ⟨rfl, _, hreadsMore⟩ := (Cursor.reads_cons (by simp [hts])).1 hreadsSign
  obtain ⟨last, hreadsValue, rfl, hlastElse, hlastPower⟩ :=
    exists_skip_of_terminator hts hend hreadsMore hpeek homitted
  have hrule : standard.statement start.current.kind = some .binding := by
    rw [hword]
    rfl
  refine stmt_of_rule hrule (eq_ok_of_ensures (ensures_binding.2
    ⟨fun _ => ⟨fun _ => ?_, fun hne => absurd hsign hne⟩, fun hne => absurd hname hne⟩))
  rw [hvalue.whole hreadsValue hlastElse hlastPower]
  exact ⟨rfl, rfl⟩

theorem ret {follow : TokenKind} {word : Token} {value : Expr}
    (hword : word.kind = .returnWord)
    (hts : BeginsWith (fun kind => standard.leading kind ≠ none) ts)
    (hopen : EndsWith (· ≠ .semicolon) ts) (hvalue : Recovers σ (.expr 0) ts value)
    (hend : Terminator follow us) :
    Recovers σ (.stmt follow) (word :: (ts ++ us)) (Stmt.ret word (some value)) := by
  intro start moved hreads hpeek hfollow
  have homitted := follow_of_open (hopen.cons word) hfollow
  obtain ⟨rfl, _, hreadsMore⟩ := (Cursor.reads_cons (by simp [hts.ne_nil])).1 hreads
  have hbare : endsBareResult start.peek.kind = false :=
    endsBareResult_of_leading ((hts.append us).current hreadsMore)
  obtain ⟨last, hreadsValue, rfl, hlastElse, hlastPower⟩ :=
    exists_skip_of_terminator hts.ne_nil hend hreadsMore hpeek homitted
  have hrule : standard.statement start.current.kind = some .result := by
    rw [hword]
    rfl
  refine stmt_of_rule hrule (eq_ok_of_ensures (ensures_result.2 ⟨fun h => ?_, fun _ => ?_⟩))
  · rw [hbare] at h
    cases h
  · rw [hvalue.whole hreadsValue hlastElse hlastPower]
    exact ⟨rfl, rfl⟩

theorem bareRet {follow : TokenKind} {word : Token} (hword : word.kind = .returnWord)
    (hend : BareTerminator follow us) :
    Recovers σ (.stmt follow) (word :: us) (Stmt.ret word none) := by
  intro start moved hreads hpeek hfollow
  have hopen : EndsWith (· ≠ .semicolon) [word] := .single (by rw [hword]; decide)
  have homitted := follow_of_open hopen hfollow
  obtain ⟨last, hreadsWord, rfl, hbare⟩ :=
    exists_skip_of_bareTerminator (List.cons_ne_nil word []) hend hreads hpeek homitted
  obtain ⟨rfl, rfl, _⟩ := Cursor.reads_singleton.1 hreadsWord
  have hrule : standard.statement last.current.kind = some .result := by
    rw [hword]
    rfl
  refine stmt_of_rule hrule (eq_ok_of_ensures (ensures_result.2
    ⟨fun _ => ⟨rfl, rfl⟩, fun h => ?_⟩))
  rw [hbare] at h
  cases h

theorem expr {follow : TokenKind} {first : Token} {value : Expr}
    (hfirst : standard.leading first.kind ≠ none) (hopen : EndsWith (· ≠ .semicolon) (first :: ts))
    (hvalue : Recovers σ (.expr 0) (first :: ts) value) (hend : Terminator follow us) :
    Recovers σ (.stmt follow) (first :: (ts ++ us)) (Stmt.expr first value) := by
  intro start moved hreads hpeek hfollow
  have homitted := follow_of_open hopen hfollow
  obtain ⟨last, hreadsValue, rfl, hlastElse, hlastPower⟩ :=
    exists_skip_of_terminator (List.cons_ne_nil first ts) hend hreads hpeek homitted
  have hcurrent : start.current = first := by
    cases hreadsValue <;> rfl
  have hrule : standard.statement start.current.kind = none := by
    rw [hcurrent]
    exact statement_of_leading hfirst
  apply eq_ok_of_ensures
  rw [reader_stmt standard_stopsAtEnd, ensures_stmtStep, hrule]
  refine ⟨fun rule h => (by cases h), fun _ => ensures_expression.2 ?_⟩
  rw [hvalue.whole hreadsValue hlastElse hlastPower, hcurrent]
  exact ⟨rfl, rfl⟩

theorem noStmts {follow : TokenKind} : Recovers σ (.stmts follow) [] [] := by
  intro start moved hpasses _ _
  cases hpasses
  exact .none _

theorem moreStmts {follow : TokenKind} {first : Stmt} {others : List Stmt}
    (hts : BeginsWith BeginsStmt ts) (hus : us = [] ∨ BeginsWith BeginsStmt us)
    (hfirst : Recovers σ (.stmt (firstKind us follow)) ts first)
    (hothers : Recovers σ (.stmts follow) us others) :
    Recovers σ (.stmts follow) (ts ++ us) (first :: others) := by
  intro start moved hpasses hcurrent hfollow
  obtain ⟨last, hreads, hpassesMore⟩ := hpasses.split (fun _ => id) hts.ne_nil
  have hpeek : last.peek.kind = firstKind us follow := by
    rw [← hcurrent]
    exact (firstKind_of_passes hpassesMore).symm
  have hkind : firstKind us follow ≠ .elseWord ∧ firstKind us follow ≠ .semicolon := by
    rcases hus with rfl | hbegins
    · rcases hfollow with rfl | rfl <;> decide
    · cases hbegins with
      | intro h => exact ⟨h.ne.2.2.2, h.ne.2.1⟩
  exact .more (hts.current hreads) (hfirst start last hreads hpeek (.inr hkind))
    (hothers last.advance moved hpassesMore hcurrent hfollow)

end Recovers

/-- Statements up to a closing brace are read as the body of a block. -/
theorem ReadsStmts.stmts {body : List Stmt} (h : ReadsStmts start body cursor)
    (hclose : cursor.current.kind = .closeCurly) :
    (reader standard).stmts start = .ok body cursor := by
  induction h with
  | none cursor =>
    apply eq_ok_of_ensures
    rw [reader_stmts standard_stopsAtEnd]
    refine ensures_stmtsStep.2 ⟨fun _ => ⟨rfl, rfl⟩, fun heof => ?_, fun hne => absurd hclose hne⟩
    rw [hclose] at heof
    cases heof
  | more hbegins hfirst _ ih =>
    apply eq_ok_of_ensures
    rw [reader_stmts standard_stopsAtEnd]
    refine ensures_stmtsStep.2 ⟨fun h => absurd h hbegins.ne.2.2.1,
      fun h => absurd h hbegins.ne.1, fun _ _ => ?_⟩
    rw [hfirst, ensures_ok, ih hclose]
    exact ⟨rfl, rfl⟩

theorem Recovers.block {brace close : Token} {body : List Stmt} (hbrace : brace.kind = .openCurly)
    (hbody : Recovers σ (.stmts .closeCurly) ts body) (hclose : close.kind = .closeCurly) :
    Recovers σ .block (brace :: (ts ++ [close])) (Block.mk brace body) := by
  intro start moved hreads
  obtain ⟨rfl, _, hreadsMore⟩ := (Cursor.reads_cons (by simp)).1 hreads
  obtain ⟨hpasses, rfl⟩ := hreadsMore.init
  have hstmts := (hbody start.advance moved hpasses hclose (.inl rfl)).stmts hclose
  refine eq_ok_of_ensures (ensures_block.2 ?_)
  rw [hstmts]
  exact ⟨rfl, rfl⟩

/-! ## All symbols -/

/-- What is derived from a symbol is read as the tree of the derivation. -/
theorem recovers_of_derives {symbol : Symbol} {tree : symbol.Tree}
    (h : Derives symbol ts tree) : Recovers σ symbol ts tree := by
  induction h with
  | binary hkind hleft hright ihleft ihright =>
    exact .binary hkind hleft.begins.ne_nil hright.begins.ne_nil ihleft ihright
  | tighter _ _ ih => exact .tighter ih
  | unary hkind hoperand ih => exact .unary hkind hoperand.begins.ne_nil ih
  | call hcallee hparen _ hclose ihcallee ihargs =>
    exact .call hcallee.begins.ne_nil ihcallee hparen ihargs hclose
  | ident hkind => exact .literal (by rw [hkind]; rfl) (by simp [Token.literal, hkind])
  | int hkind hvalue => exact .literal (by rw [hkind]; rfl) (by simp [Token.literal, hkind, hvalue])
  | str hkind => exact .literal (by rw [hkind]; rfl) (by simp [Token.literal, hkind])
  | true hkind => exact .literal (by rw [hkind]; rfl) (by simp [Token.literal, hkind])
  | false hkind => exact .literal (by rw [hkind]; rfl) (by simp [Token.literal, hkind])
  | group hparen h hclose ih => exact .group hparen h.begins.ne_nil ih hclose
  | cond hword hcondition hconsequence ihcondition ihconsequence =>
    exact .cond hword hcondition.begins.ne_nil ihcondition hconsequence.begins ihconsequence
  | condElse hword hcondition hconsequence hother halternative ihcondition ihconsequence
      ihalternative =>
    exact .condElse hword hcondition.begins.ne_nil ihcondition hconsequence.begins ihconsequence
      hother halternative.begins ihalternative
  | func hword hparen _ hclose hbody ihnames ihbody =>
    exact .func hword hparen ihnames hclose hbody.begins ihbody
  | noArguments => exact .noArguments
  | someArguments hfirst hothers ihfirst ihothers =>
    exact .someArguments hfirst.begins ihfirst hothers.begins ihothers
  | noMoreArguments => exact .noMoreArguments
  | moreArguments hcomma hfirst hothers ihfirst ihothers =>
    exact .moreArguments hcomma hfirst.begins.ne_nil ihfirst hothers.begins ihothers
  | noParameters => exact .noParameters
  | someParameters hnames ih => exact .someParameters hnames.begins ih
  | lastName hkind => exact .lastName hkind
  | moreNames hkind hcomma hnames ih => exact .moreNames hkind hcomma hnames.begins.ne_nil ih
  | block hbrace _ hclose ih => exact .block hbrace ih hclose
  | bind hword hname hsign hvalue hend ih =>
    exact .bind hword hname hsign hvalue.begins.ne_nil hvalue.endsOpen ih hend
  | ret hword hvalue hend ih => exact .ret hword hvalue.begins hvalue.endsOpen ih hend
  | bareRet hword hend => exact .bareRet hword hend
  | expr hvalue hend ih =>
    cases hvalue.begins with
    | intro hfirst => exact .expr hfirst hvalue.endsOpen ih hend
  | noStmts => exact .noStmts
  | moreStmts hfirst hothers ihfirst ihothers =>
    exact .moreStmts hfirst.begins hothers.begins ihfirst ihothers

end BraceLang.Syntax
