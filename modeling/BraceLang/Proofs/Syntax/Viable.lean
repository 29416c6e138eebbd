import BraceLang.Proofs.Syntax.Sound

/-!
# What stands in front of a blamed token

A reading that is given up has been good up to the token that its diagnostic blames:
what stands in front of this token can be completed, so that it is derived from the
symbol that was read (`descent_completable`).

* `Begun symbol ts` says that there are tokens that complete `ts`.  It is a matter of
  the syntax alone, with one lemma for each place in a production where tokens may
  break off.
* `Viable start symbol diagnostic cursor` says so of the tokens from `start` up to the
  blamed one, when the reading was given up at `cursor`.
-/

namespace BraceLang

/-- The place of the token that a diagnostic blames, if it was given up at `cursor`.  It
is the last token that was looked at. -/
def Diagnostic.blamed {σ : Type} [TokenSource σ] (diagnostic : Diagnostic) (cursor : Cursor σ) :
    Cursor σ :=
  cursor.skip (diagnostic.reach - 1)

/-- A token that is no literal is the only one that is looked at. -/
theorem Token.reach_of_literal {token : Token} {cause : Cause}
    (h : token.literal = .error cause) (position : Position) :
    Diagnostic.reach ⟨cause, position⟩ = 1 := by
  unfold Token.literal at h
  split at h
  · cases h
  · split at h
    · cases h
    · cases h
      rfl
  · cases h
  · cases h
  · cases h
  · cases h
    rfl

end BraceLang

namespace BraceLang.Syntax

open Grammar Descent TokenKind

/-! ## Beginnings -/

/-- The tokens can be completed to be derived from the symbol. -/
def Begun (symbol : Symbol) (ts : List Token) : Prop :=
  ∃ (us : List Token) (tree : symbol.Tree), Derives symbol (ts ++ us) tree

/-- A token that completes others. -/
def stub (kind : TokenKind) : Token := ⟨kind, "", .null⟩

section Beginnings

variable {symbol : Symbol} {tree : symbol.Tree} {ts us vs : List Token} {level : Nat}
  {follow closing : TokenKind}

theorem Derives.begun (h : Derives symbol ts tree) : Begun symbol ts := by
  refine ⟨[], tree, ?_⟩
  rwa [List.append_nil]

/-- The first tokens of a derivation. -/
theorem Derives.begun_append (us : List Token) (h : Derives symbol vs tree) (heq : vs = ts ++ us) :
    Begun symbol ts := by
  subst heq
  exact ⟨us, tree, h⟩

namespace Begun

/-! ### Expressions -/

theorem expr_nil (hlevel : level ≤ 7) : Begun (.expr level) [] := by
  have hname : Derives (.expr 7) [stub .identifier] _ := .ident rfl
  exact (hname.loosen hlevel (Nat.le_refl 7)).begun_append [stub .identifier] rfl

theorem loosen {level' : Nat} (h : Begun (.expr level) ts) (hle : level' ≤ level)
    (hlevel : level ≤ 7) : Begun (.expr level') ts := by
  obtain ⟨us, tree, hderives⟩ := h
  exact ⟨us, tree, hderives.loosen hle hlevel⟩

theorem binary {operator : Token} {left : Expr} (hkind : operator.kind ∈ operators level)
    (hleft : Derives (.expr level) ts left) (h : Begun (.expr (level + 1)) us) :
    Begun (.expr level) (ts ++ operator :: us) := by
  obtain ⟨vs, right, hright⟩ := h
  exact (Derives.binary hkind hleft hright).begun_append vs (by simp)

theorem unary {operator : Token} (hkind : operator.kind = .not ∨ operator.kind = .dash)
    (h : Begun (.expr 5) us) : Begun (.expr 5) (operator :: us) := by
  obtain ⟨vs, operand, hoperand⟩ := h
  exact (Derives.unary hkind hoperand).begun_append vs rfl

theorem call {paren : Token} {callee : Expr} (hcallee : Derives (.expr 6) ts callee)
    (hparen : paren.kind = .openParen) (h : Begun .arguments us) :
    Begun (.expr 6) (ts ++ paren :: us) := by
  obtain ⟨vs, args, hargs⟩ := h
  have hclose : (stub .closeParen).kind = .closeParen := rfl
  exact (Derives.call hcallee hparen hargs hclose).begun_append (vs ++ [stub .closeParen]) (by simp)

theorem group {paren : Token} (hparen : paren.kind = .openParen) (h : Begun (.expr 0) us) :
    Begun (.expr 7) (paren :: us) := by
  obtain ⟨vs, inner, hinner⟩ := h
  have hclose : (stub .closeParen).kind = .closeParen := rfl
  exact (Derives.group hparen hinner hclose).begun_append (vs ++ [stub .closeParen]) (by simp)

theorem block {brace : Token} (hbrace : brace.kind = .openCurly)
    (h : Begun (.stmts .closeCurly) us) : Begun .block (brace :: us) := by
  obtain ⟨vs, body, hbody⟩ := h
  have hclose : (stub .closeCurly).kind = .closeCurly := rfl
  exact (Derives.block hbrace hbody hclose).begun_append (vs ++ [stub .closeCurly]) (by simp)

/-- In front of a block. -/
theorem block_nil : Begun .block [] := by
  have hbrace : (stub .openCurly).kind = .openCurly := rfl
  have hclose : (stub .closeCurly).kind = .closeCurly := rfl
  exact (Derives.block hbrace .noStmts hclose).begun_append [stub .openCurly, stub .closeCurly] rfl

section Conditional

variable {word other : Token} {test : Expr} {first : Block}

theorem consequence (hword : word.kind = .ifWord) (htest : Derives (.expr 0) ts test)
    (h : Begun .block us) : Begun (.expr 7) (word :: (ts ++ us)) := by
  obtain ⟨vs, first, hfirst⟩ := h
  exact (Derives.cond hword htest hfirst).begun_append vs (by simp)

theorem condition (hword : word.kind = .ifWord) (h : Begun (.expr 0) us) :
    Begun (.expr 7) (word :: us) := by
  obtain ⟨vs, test, htest⟩ := h
  obtain ⟨ws, first, hfirst⟩ := block_nil
  exact (Derives.cond hword htest hfirst).begun_append (vs ++ ws) (by simp)

theorem alternative (hword : word.kind = .ifWord) (htest : Derives (.expr 0) ts test)
    (hfirst : Derives .block us first) (hother : other.kind = .elseWord)
    (h : Begun .block vs) : Begun (.expr 7) (word :: (ts ++ (us ++ other :: vs))) := by
  obtain ⟨ws, second, hsecond⟩ := h
  exact (Derives.condElse hword htest hfirst hother hsecond).begun_append ws (by simp)

end Conditional

section Function

variable {word paren close : Token} {names : List Identifier}

theorem body (hword : word.kind = .fnWord) (hparen : paren.kind = .openParen)
    (hnames : Derives .parameters ts names) (hclose : close.kind = .closeParen)
    (h : Begun .block us) : Begun (.expr 7) (word :: paren :: (ts ++ close :: us)) := by
  obtain ⟨vs, block, hblock⟩ := h
  exact (Derives.func hword hparen hnames hclose hblock).begun_append vs (by simp)

theorem parameterList (hword : word.kind = .fnWord) (hparen : paren.kind = .openParen)
    (h : Begun .parameters us) : Begun (.expr 7) (word :: paren :: us) := by
  obtain ⟨vs, names, hnames⟩ := h
  obtain ⟨ws, block, hblock⟩ := block_nil
  have hclose : (stub .closeParen).kind = .closeParen := rfl
  exact (Derives.func hword hparen hnames hclose hblock).begun_append
    (vs ++ stub .closeParen :: ws) (by simp)

theorem function (hword : word.kind = .fnWord) : Begun (.expr 7) [word] := by
  have hparen : (stub .openParen).kind = .openParen := rfl
  obtain ⟨vs, tree, hderives⟩ := parameterList hword hparen Derives.noParameters.begun
  exact hderives.begun_append (stub .openParen :: vs) rfl

end Function

/-! ### Lists -/

theorem firstArgument (h : Begun (.expr 0) us) : Begun .arguments us := by
  obtain ⟨vs, first, hfirst⟩ := h
  exact (Derives.someArguments hfirst .noMoreArguments).begun_append vs (by simp)

theorem arguments {first : Expr} (hfirst : Derives (.expr 0) ts first)
    (h : Begun .moreArguments us) : Begun .arguments (ts ++ us) := by
  obtain ⟨vs, others, hothers⟩ := h
  exact (Derives.someArguments hfirst hothers).begun_append vs (by simp)

theorem nextArgument {comma : Token} (hcomma : comma.kind = .comma) (h : Begun (.expr 0) us) :
    Begun .moreArguments (comma :: us) := by
  obtain ⟨vs, first, hfirst⟩ := h
  exact (Derives.moreArguments hcomma hfirst .noMoreArguments).begun_append vs (by simp)

theorem moreArguments {comma : Token} {first : Expr} (hcomma : comma.kind = .comma)
    (hfirst : Derives (.expr 0) ts first) (h : Begun .moreArguments us) :
    Begun .moreArguments (comma :: (ts ++ us)) := by
  obtain ⟨vs, others, hothers⟩ := h
  exact (Derives.moreArguments hcomma hfirst hothers).begun_append vs (by simp)

theorem names_nil : Begun .names [] := by
  have hname : (stub .identifier).kind = .identifier := rfl
  exact (Derives.lastName hname).begun_append [stub .identifier] rfl

theorem moreNames {token comma : Token} (hkind : token.kind = .identifier)
    (hcomma : comma.kind = .comma) (h : Begun .names us) :
    Begun .names (token :: comma :: us) := by
  obtain ⟨vs, names, hnames⟩ := h
  exact (Derives.moreNames hkind hcomma hnames).begun_append vs rfl

theorem parameters (h : Begun .names us) : Begun .parameters us := by
  obtain ⟨vs, names, hnames⟩ := h
  exact (Derives.someParameters hnames).begun_append vs rfl

/-! ### Statements -/

section Binding

variable {word name sign : Token}

theorem binding (hword : word.kind = .letWord) (hname : name.kind = .identifier)
    (hsign : sign.kind = .assignment) (h : Begun (.expr 0) us) :
    Begun (.stmt follow) (word :: name :: sign :: us) := by
  obtain ⟨vs, value, hvalue⟩ := h
  exact (Derives.bind hword hname hsign hvalue (.semicolon (stub .semicolon) rfl)).begun_append
    (vs ++ [stub .semicolon]) (by simp)

theorem bindingName (hword : word.kind = .letWord) (hname : name.kind = .identifier) :
    Begun (.stmt follow) [word, name] := by
  have hsign : (stub .assignment).kind = .assignment := rfl
  obtain ⟨vs, tree, hderives⟩ := binding hword hname hsign (expr_nil (Nat.zero_le 7))
  exact hderives.begun_append (stub .assignment :: vs) rfl

theorem bindingWord (hword : word.kind = .letWord) : Begun (.stmt follow) [word] := by
  have hname : (stub .identifier).kind = .identifier := rfl
  obtain ⟨vs, tree, hderives⟩ := bindingName hword hname
  exact hderives.begun_append (stub .identifier :: vs) rfl

end Binding

theorem result {word : Token} (hword : word.kind = .returnWord) (h : Begun (.expr 0) us) :
    Begun (.stmt follow) (word :: us) := by
  obtain ⟨vs, value, hvalue⟩ := h
  exact (Derives.ret hword hvalue (.semicolon (stub .semicolon) rfl)).begun_append
    (vs ++ [stub .semicolon]) (by simp)

theorem expression (h : Begun (.expr 0) us) : Begun (.stmt follow) us := by
  obtain ⟨vs, value, hvalue⟩ := h
  generalize hws : us ++ vs = ws at hvalue
  cases ws with
  | nil => exact absurd rfl hvalue.begins.ne_nil
  | cons first ws =>
    refine (Derives.expr hvalue (.semicolon (stub .semicolon) rfl)).begun_append
      (vs ++ [stub .semicolon]) ?_
    rw [← List.append_assoc, hws, List.cons_append]

theorem stmts (h : Begun (.stmt follow) us) : Begun (.stmts follow) us := by
  obtain ⟨vs, first, hfirst⟩ := h
  exact (@Derives.moreStmts follow (us ++ vs) [] _ _ hfirst .noStmts).begun_append vs (by simp)

end Begun

/-- A statement can be the last one of a block or of the source, whatever token it stood
in front of. -/
theorem Derives.last {statement : Stmt} (h : Derives (.stmt follow) ts statement)
    (hclosing : closing = .closeCurly ∨ closing = .eof) : Derives (.stmt closing) ts statement := by
  have hends : ∀ {us}, Terminator follow us → Terminator closing us := by
    intro us hend
    cases hend with
    | semicolon token hkind => exact .semicolon token hkind
    | omitted => exact .omitted (by rcases hclosing with rfl | rfl <;> decide)
  cases h with
  | bind hword hname hsign hvalue hend => exact .bind hword hname hsign hvalue (hends hend)
  | ret hword hvalue hend => exact .ret hword hvalue (hends hend)
  | expr hvalue hend => exact .expr hvalue (hends hend)
  | bareRet hword hend =>
    cases hend with
    | semicolon token hkind => exact .bareRet hword (.semicolon token hkind)
    | omitted => exact .bareRet hword (.omitted (.inr hclosing))

end Beginnings

/-! ## Viable readings -/

variable {σ : Type} [TokenSource σ] {start middle cursor moved : Cursor σ}
  {ts us : List Token} {symbol symbol' : Symbol} {diagnostic : Diagnostic}

/-- A reading from `start` on was given up at `cursor`, and what stands in front of the
blamed token can be completed. -/
structure Viable (start : Cursor σ) (symbol : Symbol) (diagnostic : Diagnostic)
    (cursor : Cursor σ) : Prop where
  position_eq : diagnostic.position = (diagnostic.blamed cursor).current.start
  begun : ∃ ts, start.Passes (fun place => place.current.kind ≠ .eof) ts
    (diagnostic.blamed cursor) ∧ Begun symbol ts

namespace Viable

/-- A part of a construct that is given up, behind tokens that are not. -/
theorem within (h : Viable middle symbol diagnostic cursor)
    (hts : start.Passes (fun place => place.current.kind ≠ .eof) ts middle)
    (hwhole : ∀ us, Begun symbol us → Begun symbol' (ts ++ us)) :
    Viable start symbol' diagnostic cursor := by
  obtain ⟨hposition, us, hus, hbegun⟩ := h
  exact ⟨hposition, ts ++ us, hts.trans hus, hwhole us hbegun⟩

/-- The next token is not of the kind with which the construct goes on. -/
theorem unexpected (construct : String) (kind : TokenKind)
    (hts : start.Passes (fun place => place.current.kind ≠ .eof) ts cursor.advance)
    (hbegun : Begun symbol ts) :
    Viable start symbol (Action.unexpected construct kind cursor.peek) cursor :=
  ⟨rfl, ts, hts, hbegun⟩

/-- The first token is no beginning of the construct. -/
theorem refused {cause : Cause} (hreach : Diagnostic.reach ⟨cause, cursor.current.start⟩ = 1)
    (hbegun : Begun symbol []) : Viable cursor symbol ⟨cause, cursor.current.start⟩ cursor := by
  have hblamed : Diagnostic.blamed ⟨cause, cursor.current.start⟩ cursor = cursor := by
    rw [Diagnostic.blamed, hreach]
    rfl
  refine ⟨by rw [hblamed], [], ?_, hbegun⟩
  rw [hblamed]
  exact .here cursor

/-- A statement that is given up, behind one that is not. -/
theorem cons {first : Stmt} {closing : TokenKind}
    (hclosing : closing = .closeCurly ∨ closing = .eof)
    (hfirst : Finds start (.stmt moved.peek.kind) first moved)
    (h : Viable moved.advance (.stmts closing) diagnostic cursor) :
    Viable start (.stmts closing) diagnostic cursor := by
  obtain ⟨ts, hts, hfirst⟩ := hfirst
  obtain ⟨hposition, us, hus, vs, others, hothers⟩ := h
  refine ⟨hposition, ts ++ us, hts.passes.trans hus, ?_⟩
  generalize diagnostic.blamed cursor = blamed at hus
  cases hus with
  | here =>
    -- Nothing of the second statement is good, so the first one is the last.
    exact (@Derives.moreStmts closing ts [] _ _ (hfirst.last hclosing) .noStmts).begun
  | on _ _ =>
    have hboth := @Derives.moreStmts closing ts _ first others (by exact hfirst) hothers
    exact hboth.begun_append vs (List.append_assoc _ _ _).symm

end Viable

/-! ## Rules -/

/-- Where an entry point of `d` gives up, the tokens in front of the blamed one can be
completed. -/
structure Completable (d : Descent σ) : Prop where
  expr : ∀ (floor : BindingPower) (cursor : Cursor σ), floor.rank ≤ 6 →
    (d.expr floor cursor).Refuses (Viable cursor (.expr (min floor.rank 5)))
  chain : ∀ (floor : BindingPower) (left : Expr) (start cursor : Cursor σ),
    CanGoOn start floor left cursor →
    (d.chain floor left cursor).Refuses (Viable start (.expr (min floor.rank 5)))
  stmt : ∀ (cursor : Cursor σ) (follow : TokenKind),
    (d.stmt cursor).Refuses (Viable cursor (.stmt follow))
  stmts : ∀ cursor : Cursor σ, (d.stmts cursor).Refuses (Viable cursor (.stmts .closeCurly))
  parameters : ∀ cursor : Cursor σ,
    (d.parameters cursor).Refuses (Viable cursor.advance .names)
  arguments : ∀ cursor : Cursor σ,
    (d.arguments cursor).Refuses (Viable cursor.advance .moreArguments)

namespace Completable

variable {d : Descent σ}

theorem operator (hd : Completable d)
    (hkind : cursor.current.kind = .not ∨ cursor.current.kind = .dash) :
    (d.operator cursor).Refuses (Viable cursor (.expr 5)) := by
  have hne : cursor.current.kind ≠ .eof := by
    rcases hkind with h | h <;> exact ne_eof_of_eq h (by decide)
  apply ensures_operator.2
  apply (hd.expr .unary cursor.advance (by decide)).mono id fun _ _ _ => trivial
  intro diagnostic moved h
  exact h.within (.one hne) fun us hus => hus.unary hkind

theorem group (hs : Sound d) (hd : Completable d) (hparen : cursor.current.kind = .openParen) :
    (d.group cursor).Refuses (Viable cursor (.expr 7)) := by
  have hne : cursor.current.kind ≠ .eof := ne_eof_of_eq hparen (by decide)
  apply ensures_group.2
  apply (hs.expr .default cursor.advance (by decide)).andThen
    (hd.expr .default cursor.advance (by decide))
  · intro inner moved hinner
    refine ⟨fun _ => trivial, fun _ => ?_⟩
    obtain ⟨ts, hts, hderives⟩ := hinner.expr
    exact .unexpected _ _ (.on hne hts.passes) (hderives.begun.group hparen)
  · intro diagnostic moved h
    exact h.within (.one hne) fun us hus => hus.group hparen

theorem block (hd : Completable d) (cursor : Cursor σ) (hbrace : cursor.current.kind = .openCurly) :
    (d.block cursor).Refuses (Viable cursor .block) := by
  apply ensures_block.2
  apply (hd.stmts cursor.advance).mono id fun _ _ _ => trivial
  intro diagnostic moved h
  exact h.within (.one (ne_eof_of_eq hbrace (by decide))) fun us hus => hus.block hbrace

theorem conditional (hs : Sound d) (hd : Completable d) (hword : cursor.current.kind = .ifWord) :
    (d.conditional cursor).Refuses (Viable cursor (.expr 7)) := by
  have hne : cursor.current.kind ≠ .eof := ne_eof_of_eq hword (by decide)
  apply ensures_conditional.2
  apply (hs.expr .default cursor.advance (by decide)).andThen
    (hd.expr .default cursor.advance (by decide))
  · intro condition tested hcondition
    obtain ⟨ts, hts, hcondition⟩ := hcondition.expr
    have hway := Cursor.Passes.on hne hts.passes
    refine ⟨fun hopen => ?_, fun _ => ?_⟩
    · apply (hs.block tested.advance hopen).andThen (hd.block tested.advance hopen)
      · intro consequence first hconsequence
        obtain ⟨us, hus, hconsequence⟩ := hconsequence
        refine ensures_alternative.2 ⟨fun hother => ?_, fun _ => trivial⟩
        have hfirst := (hway.trans hus.passes).trans (.one (ne_eof_of_eq hother (by decide)))
        have hbegun : ∀ vs, Begun .block vs → Begun (.expr 7)
            (cursor.current :: ts ++ us ++ [first.advance.current] ++ vs) := by
          intro vs hvs
          have hwhole : Begun _ (cursor.current :: (ts ++ (us ++ first.advance.current :: vs))) :=
            hvs.alternative hword hcondition hconsequence hother
          simpa using hwhole
        refine ⟨fun hbrace => ?_, fun _ => ?_⟩
        · apply (hd.block first.advance.advance hbrace).mono id fun _ _ _ => trivial
          intro diagnostic moved h
          exact h.within hfirst hbegun
        · refine .unexpected _ _ hfirst ?_
          have hwhole := hbegun [] Begun.block_nil
          rwa [List.append_nil] at hwhole
      · intro diagnostic moved h
        exact h.within hway fun us hus => hus.consequence hword hcondition
    · refine .unexpected _ _ hway ?_
      have hwhole := Begun.block_nil.consequence hword hcondition
      rwa [List.append_nil] at hwhole
  · intro diagnostic moved h
    exact h.within (.one hne) fun us hus => hus.condition hword

theorem parameterList (hs : Sound d) (hd : Completable d) (cursor : Cursor σ) :
    (d.parameterList cursor).Refuses (Viable cursor.advance .parameters) := by
  refine ensures_parameterList.2 ⟨fun _ => trivial, fun _ => ?_⟩
  apply (hs.parameters cursor).andThen (hd.parameters cursor)
  · intro names moved hnames
    obtain ⟨ts, hts, hnames⟩ := hnames
    exact ⟨fun _ => trivial, fun _ => .unexpected _ _ hts.passes hnames.begun.parameters⟩
  · intro diagnostic moved h
    exact h.within (.here _) fun us hus => hus.parameters

theorem function (hs : Sound d) (hd : Completable d) (hword : cursor.current.kind = .fnWord) :
    (d.function cursor).Refuses (Viable cursor (.expr 7)) := by
  have hne : cursor.current.kind ≠ .eof := ne_eof_of_eq hword (by decide)
  refine ensures_function.2 ⟨fun hparen => ?_, fun _ => ?_⟩
  · apply (hs.parameterList cursor.advance hparen).andThen (hd.parameterList hs cursor.advance)
    · intro names listed hnames
      obtain ⟨ts, hts, hnames, hclose⟩ := hnames
      have hway := Cursor.Passes.on hne hts.passes
      have hbegun : ∀ us, Begun .block us → Begun (.expr 7)
          (cursor.current :: cursor.advance.current :: (ts ++ [listed.current]) ++ us) := by
        intro us hus
        have hwhole : Begun _
            (cursor.current :: cursor.advance.current :: (ts ++ listed.current :: us)) :=
          hus.body hword hparen hnames hclose
        simpa using hwhole
      refine ⟨fun hopen => ?_, fun _ => ?_⟩
      · apply (hd.block listed.advance hopen).mono id fun _ _ _ => trivial
        intro diagnostic moved h
        exact h.within hway hbegun
      · refine .unexpected _ _ hway ?_
        have hwhole := hbegun [] Begun.block_nil
        rwa [List.append_nil] at hwhole
    · intro diagnostic moved h
      exact h.within (.on hne (.one (ne_eof_of_eq hparen (by decide))))
        fun us hus => hus.parameterList hword hparen
  · exact .unexpected _ _ (.one hne) (Begun.function hword)

/-- A leading rule that is given up. -/
theorem lead (hs : Sound d) (hd : Completable d) {rule : LeadingRule}
    (hrule : standard.leading cursor.current.kind = some rule) :
    (d.lead rule cursor).Refuses (Viable cursor (.expr 5)) := by
  have hprimary : ∀ diagnostic moved, Viable cursor (.expr 7) diagnostic moved →
      Viable cursor (.expr 5) diagnostic moved := fun diagnostic moved h =>
    h.within (.here cursor) fun us hus => hus.loosen (by decide) (by decide)
  have hled := leading_eq_some_iff.1 hrule
  cases rule with
  | literal =>
    refine ensures_literal.2 ⟨fun _ _ => trivial, fun cause hcause => ?_⟩
    exact .refused (Token.reach_of_literal hcause _) (Begun.expr_nil (by decide))
  | operator => exact hd.operator hled
  | group => exact (hd.group hs hled).mono id (fun _ _ => id) hprimary
  | conditional => exact (hd.conditional hs hled).mono id (fun _ _ => id) hprimary
  | function => exact (hd.function hs hled).mono id (fun _ _ => id) hprimary

theorem argumentList (hs : Sound d) (hd : Completable d) (cursor : Cursor σ) :
    (d.argumentList cursor).Refuses (Viable cursor.advance .arguments) := by
  refine ensures_argumentList.2 ⟨fun _ => trivial, fun _ => ?_⟩
  apply (hs.expr .default cursor.advance (by decide)).andThen
    (hd.expr .default cursor.advance (by decide))
  · intro first one hfirst
    obtain ⟨ts, hts, hfirst⟩ := hfirst.expr
    apply (hs.arguments one).andThen (hd.arguments one)
    · intro others moved hothers
      obtain ⟨us, hus, hothers⟩ := hothers
      exact ⟨fun _ => trivial, fun _ =>
        .unexpected _ _ (hts.passes.trans hus) (hothers.begun.arguments hfirst)⟩
    · intro diagnostic moved h
      exact h.within hts.passes fun us hus => hus.arguments hfirst
  · intro diagnostic moved h
    exact h.within (.here _) fun us hus => hus.firstArgument

/-- A trailing rule that is given up behind a left operand. -/
theorem trail (hs : Sound d) (hd : Completable d) {floor power : BindingPower}
    {rule : TrailingRule} {left : Expr} (hleft : CanGoOn start floor left cursor)
    (hrule : standard.continuation floor cursor.peek.kind = some (power, rule)) :
    (d.trail left power rule cursor.advance).Refuses
      (Viable start (.expr (min floor.rank 5))) := by
  obtain ⟨level, ⟨ts, hts, hleft⟩, hfloor, hseven, hpower⟩ := hleft
  obtain ⟨htrailing, _, hlt⟩ := continuation_eq_some.1 hrule
  have hstronger : floor.rank < power.rank := hlt
  rw [Grammar.power, htrailing] at hpower
  simp only at hpower
  have hway := hts.passes.trans (.one (Ruled.trailing htrailing).ne.1)
  rcases trailing_cases htrailing with ⟨level', hfive, hmem, hrank, rfl⟩ | ⟨hparen, rfl, rfl⟩
  · apply ensures_binary.2
    apply (hd.expr power cursor.advance.advance (by omega)).mono id fun _ _ _ => trivial
    intro diagnostic moved h
    rw [hrank, Nat.min_eq_left (by omega)] at h
    refine h.within hway fun us hus => ?_
    have hwhole := hus.binary hmem (hleft.loosen (by omega) hseven)
    rw [List.append_assoc]
    exact hwhole.loosen (by omega) (by omega)
  · have hsix : 6 ≤ level := by
      simp only [BindingPower.rank] at hpower
      omega
    apply ensures_call.2
    apply (hd.argumentList hs cursor.advance).mono id fun _ _ _ => trivial
    intro diagnostic moved h
    refine h.within hway fun us hus => ?_
    have hwhole := hus.call (hleft.loosen hsix hseven) hparen
    rw [List.append_assoc]
    exact hwhole.loosen (by omega) (by decide)

/-! ### One step -/

theorem exprStep (hs : Sound d) (hd : Completable d) (floor : BindingPower) :
    (exprStep standard d floor cursor).Refuses (Viable cursor (.expr (min floor.rank 5))) := by
  refine ensures_exprStep.2 ⟨fun rule hrule => ?_, fun _ => ?_⟩
  · apply (hs.lead floor hrule).andThen (hd.lead hs hrule)
    · intro left moved hleft
      exact hd.chain floor left cursor moved hleft
    · intro diagnostic moved h
      exact h.within (.here cursor) fun us hus => hus.loosen (Nat.min_le_right _ _) (by decide)
  · exact .refused rfl (Begun.expr_nil (by omega))

theorem chainStep (hs : Sound d) (hd : Completable d) {floor : BindingPower} {left : Expr}
    (hleft : CanGoOn start floor left cursor) :
    (chainStep standard d floor left cursor).Refuses
      (Viable start (.expr (min floor.rank 5))) := by
  refine ensures_chainStep.2 ⟨fun power rule hrule => ?_, fun _ => trivial⟩
  apply (hs.trail hleft hrule).andThen (hd.trail hs hleft hrule)
  · intro longer moved hlonger
    exact hd.chain floor longer start moved hlonger
  · exact fun _ _ => id

theorem expression (hd : Completable d) (follow : TokenKind) :
    (d.expression cursor).Refuses (Viable cursor (.stmt follow)) := by
  apply ensures_expression.2
  apply (hd.expr .default cursor (by decide)).mono id fun _ _ _ => trivial
  intro diagnostic moved h
  exact h.within (.here cursor) fun us hus => hus.expression

theorem binding (hd : Completable d) (follow : TokenKind)
    (hword : cursor.current.kind = .letWord) :
    (d.binding cursor).Refuses (Viable cursor (.stmt follow)) := by
  have hne : cursor.current.kind ≠ .eof := ne_eof_of_eq hword (by decide)
  refine ensures_binding.2 ⟨fun hname => ?_, fun _ => .unexpected _ _ (.one hne)
    (Begun.bindingWord hword)⟩
  have hnamed : cursor.peek.kind ≠ .eof := ne_eof_of_eq hname (by decide)
  refine ⟨fun hsign => ?_, fun _ => .unexpected _ _ (.on hne (.one hnamed))
    (Begun.bindingName hword hname)⟩
  apply (hd.expr .default _ (by decide)).mono id fun _ _ _ => trivial
  intro diagnostic moved h
  refine h.within (.on hne (.on hnamed (.one (ne_eof_of_eq hsign (by decide))))) ?_
  exact fun us hus => hus.binding hword hname hsign

theorem result (hd : Completable d) (follow : TokenKind)
    (hword : cursor.current.kind = .returnWord) :
    (d.result cursor).Refuses (Viable cursor (.stmt follow)) := by
  refine ensures_result.2 ⟨fun _ => trivial, fun _ => ?_⟩
  apply (hd.expr .default cursor.advance (by decide)).mono id fun _ _ _ => trivial
  intro diagnostic moved h
  exact h.within (.one (ne_eof_of_eq hword (by decide))) fun us hus => hus.result hword

theorem stmtStep (hd : Completable d) (follow : TokenKind) :
    (stmtStep standard d cursor).Refuses (Viable cursor (.stmt follow)) := by
  refine ensures_stmtStep.2 ⟨fun rule hrule => ?_, fun _ => hd.expression follow⟩
  rcases statement_cases hrule with ⟨hword, rfl⟩ | ⟨hword, rfl⟩
  · exact hd.binding follow hword
  · exact hd.result follow hword

theorem stmtsStep (hs : Sound d) (hd : Completable d) :
    (stmtsStep d cursor).Refuses (Viable cursor (.stmts .closeCurly)) := by
  refine ensures_stmtsStep.2 ⟨fun _ => trivial, fun heof => ?_, fun _ _ => ?_⟩
  · -- The end is blamed as the current token, and it is the next one, too.
    rw [← cursor.peek_of_eof heof]
    refine .unexpected _ _ ?_ Derives.noStmts.begun
    rw [Cursor.advance_of_eof heof]
    exact .here cursor
  · apply (hs.stmt cursor).andThen (hd.stmt cursor .closeCurly)
    · intro first moved hfirst
      apply (hd.stmts moved.advance).mono id fun _ _ _ => trivial
      intro diagnostic last h
      exact .cons (.inl rfl) hfirst h
    · intro diagnostic moved h
      exact h.within (.here cursor) fun us hus => hus.stmts

theorem parametersStep (hd : Completable d) :
    (parametersStep d cursor).Refuses (Viable cursor.advance .names) := by
  refine ensures_parametersStep.2 ⟨fun hname => ⟨fun hcomma => ?_, fun _ => trivial⟩, fun _ => ?_⟩
  · apply (hd.parameters cursor.advance.advance).mono id fun _ _ _ => trivial
    intro diagnostic moved h
    exact h.within (.on (ne_eof_of_eq hname (by decide)) (.one (ne_eof_of_eq hcomma (by decide))))
      fun us hus => hus.moreNames hname hcomma
  · exact .unexpected _ _ (.here _) Begun.names_nil

theorem argumentsStep (hs : Sound d) (hd : Completable d) :
    (argumentsStep d cursor).Refuses (Viable cursor.advance .moreArguments) := by
  refine ensures_argumentsStep.2 ⟨fun hcomma => ?_, fun _ => trivial⟩
  apply (hs.expr .default cursor.advance.advance (by decide)).andThen
    (hd.expr .default cursor.advance.advance (by decide))
  · intro argument one hargument
    obtain ⟨ts, hts, hargument⟩ := hargument.expr
    apply (hd.arguments one).mono id fun _ _ _ => trivial
    intro diagnostic moved h
    exact h.within (.on (ne_eof_of_eq hcomma (by decide)) hts.passes)
      fun us hus => hus.moreArguments hcomma hargument
  · intro diagnostic moved h
    exact h.within (.one (ne_eof_of_eq hcomma (by decide))) fun us hus => hus.nextArgument hcomma

theorem step (hs : Sound d) (hd : Completable d) : Completable (Descent.step standard d) where
  expr floor _ _ := hd.exprStep hs floor
  chain _ _ _ _ hleft := hd.chainStep hs hleft
  stmt _ follow := hd.stmtStep follow
  stmts _ := hd.stmtsStep hs
  parameters _ := hd.parametersStep
  arguments _ := hd.argumentsStep hs

end Completable

/-- Wherever the parser gives up, it has been good up to the blamed token. -/
theorem descent_completable (fuel : Nat) : Completable (descent standard fuel : Descent σ) := by
  induction fuel with
  | zero => constructor <;> intros <;> trivial
  | succ fuel ih =>
    rw [descent_succ]
    exact ih.step (descent_sound fuel)

theorem viable_of_stmt_fail (follow : TokenKind)
    (h : (reader standard).stmt cursor = .fail diagnostic moved) :
    Viable cursor (.stmt follow) diagnostic moved := by
  have hcompletable := (descent_completable cursor.fuel).stmt cursor follow
  rw [show (descent standard cursor.fuel).stmt cursor = .fail diagnostic moved from h]
    at hcompletable
  exact hcompletable

end BraceLang.Syntax
