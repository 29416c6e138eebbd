import BraceLang.Proofs.Render.Spellings

/-!
# The text of a tree scans

The text of a tree scans as its spellings (`Stmt.scans`), if the tree is spelt and
all of its strings are shown.

The text is put together from the back: what is shown of an expression is that its
text can be put in front of any other that scans, as long as this begins with a
character that parts the two (`Closes`).
-/

namespace BraceLang

variable {kind : TokenKind} {text : String} {rest : List Char} {spellings : List Spelling}

/-! ## Pieces -/

/-- The characters that can follow an expression. -/
def closers : List Char := [' ', '(', ')', ',', ';']

/-- The text begins with a character that can follow an expression, if it is not
empty. -/
def Closes (rest : List Char) : Prop :=
  ∀ c ∈ rest.head?, c ∈ closers

theorem closes_nil : Closes [] := fun c hc => by cases hc

theorem closes_blank (rest : List Char) : Closes (' ' :: rest) := by
  rintro _ ⟨⟩
  decide

/-- A mark that can follow an expression. -/
theorem closes_mark (text : String) (rest : List Char)
    (h : text ∈ ["(", ")", ",", ";"] := by decide) : Closes (text.toList ++ rest) := by
  simp only [List.mem_cons, List.not_mem_nil, or_false] at h
  rcases h with rfl | rfl | rfl | rfl
  all_goals
    rintro _ ⟨⟩
    decide

/-- Whatever can follow an expression goes on with no lexeme. -/
theorem Closes.parts (h : Closes rest) (kind : TokenKind) : Parts kind rest := by
  intro c hc
  have hcloser := h c hc
  simp only [closers, List.mem_cons, List.not_mem_nil, or_false] at hcloser
  rcases hcloser with rfl | rfl | rfl | rfl | rfl <;> cases kind <;> rfl

/-- A text that belongs to a kind, in front of another text. -/
theorem Scans.spelled (h : Spelled kind text) (hne : kind ≠ .string) (hrest : Parts kind rest)
    (hmore : Scans rest spellings) : Scans (text.toList ++ rest) ((kind, text) :: spellings) := by
  have hwrite : Scans ((Spelling.write (kind, text)).toList ++ rest) ((kind, text) :: spellings) :=
    .write h (fun heq => absurd heq hne) hrest hmore
  rwa [write_of_ne hne] at hwrite

/-- The only text of a kind. -/
theorem Scans.only (h : kind.text? = some text) (hrest : Parts kind rest)
    (hmore : Scans rest spellings) : Scans (text.toList ++ rest) ((kind, text) :: spellings) :=
  .spelled (spelled_of_text? h) (by rintro rfl; cases h) hrest hmore

/-- A mark, with which no lexeme goes on. -/
theorem Scans.mark (kind : TokenKind) (text : String) (hmore : Scans rest spellings)
    (h : kind.text? = some text := by rfl)
    (hmark : ∀ c, goesOn kind c = false := by exact fun _ => rfl) :
    Scans (text.toList ++ rest) ((kind, text) :: spellings) :=
  .only h (fun c _ => hmark c) hmore

/-- A word with one text, in front of a blank. -/
theorem Scans.beforeBlank (kind : TokenKind) (text : String) (hmore : Scans rest spellings)
    (h : kind.text? = some text := by rfl) :
    Scans (text.toList ++ ' ' :: rest) ((kind, text) :: spellings) :=
  .only h ((closes_blank rest).parts kind) (.blank hmore)

theorem Scans.name {identifier : Identifier} (h : identifier.Spelt) (hrest : Closes rest)
    (hmore : Scans rest spellings) :
    Scans (identifier.name.toList ++ rest) (identifier.spelling :: spellings) :=
  .spelled h.2 (by decide) (hrest.parts _) hmore

theorem Scans.names {parameters : List Identifier} (h : ∀ name ∈ parameters, name.Spelt)
    (hrest : Closes rest) (hmore : Scans rest spellings) :
    Scans ((", ".intercalate (parameters.map Identifier.name)).toList ++ rest)
      (Identifier.spellings parameters ++ spellings) := by
  fun_induction Identifier.spellings parameters with
  | case1 => simpa using hmore
  | case2 identifier =>
    rw [List.map_singleton, String.intercalate_singleton]
    exact .name (h identifier List.mem_cons_self) hrest hmore
  | case3 identifier next others ih =>
    have hothers := ih fun name hname => h name (List.mem_cons_of_mem identifier hname)
    have htext :
        (", ".intercalate ((identifier :: next :: others).map Identifier.name)).toList ++ rest =
          identifier.name.toList ++ (",".toList ++ ' ' ::
            ((", ".intercalate ((next :: others).map Identifier.name)).toList ++ rest)) := by
      simp
    rw [htext]
    exact .name (h identifier List.mem_cons_self) (closes_mark "," _)
      (.mark .comma "," (.blank hothers))

theorem Scans.bool (value : Bool) (hrest : Closes rest) (hmore : Scans rest spellings) :
    Scans ((if value then "true" else "false").toList ++ rest)
      (boolSpelling value :: spellings) := by
  cases value
  · exact .only rfl (hrest.parts _) hmore
  · exact .only rfl (hrest.parts _) hmore

/-- An operator between blanks. -/
theorem Scans.infixOperator {level : Nat} (hkind : kind ∈ Syntax.operators level)
    (h : Spelled kind text) (hmore : Scans rest spellings) :
    Scans (' ' :: (text.toList ++ ' ' :: rest)) ((kind, text) :: spellings) := by
  have hne : kind ≠ .string := by
    intro heq
    subst heq
    have hextends : Syntax.Extends .string := .inl ⟨level, hkind⟩
    exact absurd hextends (by decide)
  exact .blank (.spelled h hne ((closes_blank rest).parts kind) (.blank hmore))

/-- An operator in front of its operand. -/
theorem Scans.prefixOperator {operand : Expr} (hkind : kind = .not ∨ kind = .dash)
    (h : Spelled kind text) (hoperand : operand.Everywhere spelt)
    (hmore : Scans (operand.render.toList ++ rest) spellings) :
    Scans (text.toList ++ (operand.render.toList ++ rest)) ((kind, text) :: spellings) := by
  obtain ⟨c, _, hbegins⟩ := operand.exists_begins hoperand
  have hhead : (operand.render.toList ++ rest).head? = some c := by
    rw [List.head?_append, hbegins.char_eq, Option.some_or]
  have hparts : goesOn kind c = false := by
    rcases hkind with rfl | rfl
    · exact beq_eq_false_iff_ne.2 hbegins.char_ne
    · rfl
  refine .spelled h (by rcases hkind with rfl | rfl <;> decide) (fun d hd => ?_) hmore
  rw [hhead] at hd
  cases hd
  exact hparts

/-! ## Lists of texts -/

theorem intercalate_cons (separator first : String) (others : List String) :
    separator.intercalate (first :: others) =
      first ++ String.join (others.map (separator ++ ·)) := by
  induction others generalizing first with
  | nil => simp
  | cons second others ih =>
    rw [String.intercalate_cons_cons, ih, List.map_cons, String.join_cons, String.append_assoc,
      String.append_assoc]

/-- What follows the first argument begins with a comma, if it is not empty. -/
theorem closes_more (texts : List String) (hrest : Closes rest) :
    Closes ((String.join (texts.map (", " ++ ·))).toList ++ rest) := by
  cases texts with
  | nil => simpa using hrest
  | cons first others =>
    have htext : (String.join ((first :: others).map (", " ++ ·))).toList ++ rest =
        ",".toList ++ (' ' :: (first.toList ++
          ((String.join (others.map (", " ++ ·))).toList ++ rest))) := by
      simp
    rw [htext]
    exact closes_mark "," _

/-! ## Trees -/

mutual

theorem Expr.scans : ∀ expression : Expr, expression.Everywhere spelt →
    expression.Everywhere shown → ∀ {rest spellings}, Closes rest → Scans rest spellings →
    Scans (expression.render.toList ++ rest) (expression.spellings ++ spellings)
  | .ident identifier, hspelt, _, rest, spellings, hrest, hmore => by
    rw [Expr.render, Expr.spellings]
    exact .name hspelt hrest hmore
  | .int token value, hspelt, _, rest, spellings, hrest, hmore => by
    rw [Expr.render, Expr.spellings]
    exact .spelled hspelt.2.1 (by decide) (hrest.parts _) hmore
  | .str token value, _, hshown, rest, spellings, hrest, hmore => by
    have hwrite : Scans ((Spelling.write (.string, value)).toList ++ rest)
        ((.string, value) :: spellings) :=
      .write (.quoted value) (fun _ => hshown) (hrest.parts _) hmore
    rw [Expr.render, Expr.spellings]
    exact hwrite
  | .bool token value, _, _, rest, spellings, hrest, hmore => by
    rw [Expr.render, Expr.spellings]
    exact .bool value hrest hmore
  | .unary token operator operand, hspelt, hshown, rest, spellings, hrest, hmore => by
    obtain ⟨⟨hkind, _, hoperator⟩, hoperand⟩ := hspelt
    have htext : (Expr.unary token operator operand).render.toList ++ rest =
        "(".toList ++ (operator.toList ++ (operand.render.toList ++ (")".toList ++ rest))) := by
      simp [Expr.render]
    have hclose := operand.scans hoperand hshown.2 (closes_mark ")" _) (.mark .closeParen ")" hmore)
    have hopen := Scans.mark .openParen "(" (.prefixOperator hkind hoperator hoperand hclose)
    rw [htext]
    simpa [Expr.spellings] using hopen
  | .binary token operator left right, hspelt, hshown, rest, spellings, hrest, hmore => by
    obtain ⟨⟨⟨level, hkind⟩, _, hoperator⟩, hleft, hright⟩ := hspelt
    obtain ⟨_, hleftShown, hrightShown⟩ := hshown
    have htext : (Expr.binary token operator left right).render.toList ++ rest =
        "(".toList ++ (left.render.toList ++ ' ' :: (operator.toList ++ ' ' ::
          (right.render.toList ++ (")".toList ++ rest)))) := by
      simp [Expr.render]
    have hclose := right.scans hright hrightShown (closes_mark ")" _) (.mark .closeParen ")" hmore)
    have hmiddle := left.scans hleft hleftShown (closes_blank _)
      (.infixOperator hkind hoperator hclose)
    have hopen := Scans.mark .openParen "(" hmiddle
    rw [htext]
    simpa [Expr.spellings] using hopen
  | .cond token condition consequence none, hspelt, hshown, rest, spellings, hrest, hmore => by
    obtain ⟨_, hcondition, hconsequence⟩ := hspelt
    obtain ⟨_, hconditionShown, hconsequenceShown⟩ := hshown
    have htext : (Expr.cond token condition consequence none).render.toList ++ rest =
        "if".toList ++ ' ' :: (condition.render.toList ++ ' ' ::
          (consequence.render.toList ++ rest)) := by
      simp [Expr.render]
    have hfirst := consequence.scans hconsequence hconsequenceShown hmore
    have htest := condition.scans hcondition hconditionShown (closes_blank _) (.blank hfirst)
    have hword := Scans.beforeBlank .ifWord "if" htest
    rw [htext]
    simpa [Expr.spellings] using hword
  | .cond token condition consequence (some alternative), hspelt, hshown, rest, spellings, hrest,
      hmore => by
    obtain ⟨_, hcondition, hconsequence, halternative⟩ := hspelt
    obtain ⟨_, hconditionShown, hconsequenceShown, halternativeShown⟩ := hshown
    have htext : (Expr.cond token condition consequence (some alternative)).render.toList ++ rest =
        "if".toList ++ ' ' :: (condition.render.toList ++ ' ' ::
          (consequence.render.toList ++ ' ' :: ("else".toList ++ ' ' ::
            (alternative.render.toList ++ rest)))) := by
      simp [Expr.render]
    have hsecond := alternative.scans halternative halternativeShown hmore
    have hother := Scans.blank (.beforeBlank .elseWord "else" hsecond)
    have hfirst := consequence.scans hconsequence hconsequenceShown hother
    have htest := condition.scans hcondition hconditionShown (closes_blank _) (.blank hfirst)
    have hword := Scans.beforeBlank .ifWord "if" htest
    rw [htext]
    simpa [Expr.spellings] using hword
  | .func token parameters body, hspelt, hshown, rest, spellings, hrest, hmore => by
    obtain ⟨⟨hword, hnames⟩, hbody⟩ := hspelt
    have htoken : token.text = "fn" := congrArg Prod.snd hword
    have htext : (Expr.func token parameters body).render.toList ++ rest =
        "fn".toList ++ ("(".toList ++ ((", ".intercalate (parameters.map Identifier.name)).toList ++
          (")".toList ++ ' ' :: (body.render.toList ++ rest)))) := by
      simp [Expr.render, htoken]
    have hbodyScans := body.scans hbody hshown.2 hmore
    have hclose := Scans.mark .closeParen ")" (.blank hbodyScans)
    have hopen := Scans.mark .openParen "(" (.names hnames (closes_mark ")" _) hclose)
    have hfunction := Scans.only (show TokenKind.fnWord.text? = some "fn" from rfl)
      ((closes_mark "(" _).parts _) hopen
    rw [htext]
    simpa [Expr.spellings] using hfunction
  | .call token callee arguments, hspelt, hshown, rest, spellings, hrest, hmore => by
    obtain ⟨_, hcallee, harguments⟩ := hspelt
    obtain ⟨_, hcalleeShown, hargumentsShown⟩ := hshown
    have htext : (Expr.call token callee arguments).render.toList ++ rest =
        callee.render.toList ++ ("(".toList ++
          ((", ".intercalate (Expr.renderEach arguments)).toList ++ (")".toList ++ rest))) := by
      simp [Expr.render]
    have hclose := Scans.mark .closeParen ")" hmore
    have hlist := Expr.scans_arguments arguments harguments hargumentsShown
      (closes_mark ")" _) hclose
    have hopen := callee.scans hcallee hcalleeShown (closes_mark "(" _) (.mark .openParen "(" hlist)
    rw [htext]
    simpa [Expr.spellings] using hopen

theorem Expr.scans_arguments : ∀ arguments : List Expr, Expr.EverywhereEach spelt arguments →
    Expr.EverywhereEach shown arguments → ∀ {rest spellings}, Closes rest → Scans rest spellings →
    Scans ((", ".intercalate (Expr.renderEach arguments)).toList ++ rest)
      (Expr.spellingsOfArguments arguments ++ spellings)
  | [], _, _, rest, spellings, _, hmore => by
    simpa [Expr.renderEach, Expr.spellingsOfArguments] using hmore
  | expression :: expressions, hspelt, hshown, rest, spellings, hrest, hmore => by
    have htext : (", ".intercalate (Expr.renderEach (expression :: expressions))).toList ++ rest =
        expression.render.toList ++
          ((String.join ((Expr.renderEach expressions).map (", " ++ ·))).toList ++ rest) := by
      rw [Expr.renderEach, intercalate_cons, String.toList_append, List.append_assoc]
    have hothers := Expr.scans_more expressions hspelt.2 hshown.2 hrest hmore
    have hfirst := expression.scans hspelt.1 hshown.1 (closes_more _ hrest) hothers
    rw [htext, Expr.spellingsOfArguments, List.append_assoc]
    exact hfirst

theorem Expr.scans_more : ∀ arguments : List Expr, Expr.EverywhereEach spelt arguments →
    Expr.EverywhereEach shown arguments → ∀ {rest spellings}, Closes rest → Scans rest spellings →
    Scans ((String.join ((Expr.renderEach arguments).map (", " ++ ·))).toList ++ rest)
      (Expr.spellingsOfMore arguments ++ spellings)
  | [], _, _, rest, spellings, _, hmore => by
    simpa [Expr.renderEach, Expr.spellingsOfMore] using hmore
  | expression :: expressions, hspelt, hshown, rest, spellings, hrest, hmore => by
    have htext : (String.join ((Expr.renderEach (expression :: expressions)).map
          (", " ++ ·))).toList ++ rest =
        ",".toList ++ ' ' :: (expression.render.toList ++
          ((String.join ((Expr.renderEach expressions).map (", " ++ ·))).toList ++ rest)) := by
      simp [Expr.renderEach]
    have hothers := Expr.scans_more expressions hspelt.2 hshown.2 hrest hmore
    have hfirst := expression.scans hspelt.1 hshown.1 (closes_more _ hrest) hothers
    have hcomma := Scans.mark .comma "," (.blank hfirst)
    rw [htext, Expr.spellingsOfMore, List.cons_append, List.append_assoc]
    exact hcomma

theorem Stmt.scans : ∀ statement : Stmt, statement.Everywhere spelt → statement.Everywhere shown →
    ∀ {rest spellings}, Closes rest → Scans rest spellings →
    Scans (statement.render.toList ++ rest) (statement.spellings ++ spellings)
  | .bind token name value, hspelt, hshown, rest, spellings, _, hmore => by
    obtain ⟨⟨hword, hname⟩, hvalue⟩ := hspelt
    have htoken : token.text = "let" := congrArg Prod.snd hword
    have htext : (Stmt.bind token name value).render.toList ++ rest =
        "let".toList ++ ' ' :: (name.name.toList ++ ' ' :: ("=".toList ++ ' ' ::
          (value.render.toList ++ (";".toList ++ rest)))) := by
      simp [Stmt.render, htoken]
    have hend := value.scans hvalue hshown.2 (closes_mark ";" _) (.mark .semicolon ";" hmore)
    have hsign := Scans.blank (.beforeBlank .assignment "=" hend)
    have hnamed := Scans.beforeBlank .letWord "let" (.name hname (closes_blank _) hsign)
    rw [htext]
    simpa [Stmt.spellings] using hnamed
  | .ret token none, hspelt, _, rest, spellings, _, hmore => by
    have htoken : token.text = "return" := congrArg Prod.snd hspelt
    have htext : (Stmt.ret token none).render.toList ++ rest =
        "return".toList ++ (";".toList ++ rest) := by
      simp [Stmt.render, htoken]
    have hword := Scans.only (show TokenKind.returnWord.text? = some "return" from rfl)
      ((closes_mark ";" _).parts _) (.mark .semicolon ";" hmore)
    rw [htext]
    simpa [Stmt.spellings] using hword
  | .ret token (some value), hspelt, hshown, rest, spellings, _, hmore => by
    have htoken : token.text = "return" := congrArg Prod.snd hspelt.1
    have htext : (Stmt.ret token (some value)).render.toList ++ rest =
        "return".toList ++ ' ' :: (value.render.toList ++ (";".toList ++ rest)) := by
      simp [Stmt.render, htoken]
    have hend := value.scans hspelt.2 hshown.2 (closes_mark ";" _) (.mark .semicolon ";" hmore)
    have hword := Scans.beforeBlank .returnWord "return" hend
    rw [htext]
    simpa [Stmt.spellings] using hword
  | .expr token expression, hspelt, hshown, rest, spellings, hrest, hmore => by
    rw [Stmt.render, Stmt.spellings]
    exact expression.scans hspelt.2 hshown.2 hrest hmore

theorem Stmt.scans_each : ∀ statements : List Stmt, Stmt.EverywhereEach spelt statements →
    Stmt.EverywhereEach shown statements → ∀ {rest spellings}, Scans rest spellings →
    Scans ((String.join ((Stmt.renderEach statements).map (· ++ " "))).toList ++ rest)
      (Stmt.spellingsOfEach statements ++ spellings)
  | [], _, _, rest, spellings, hmore => by
    simpa [Stmt.renderEach, Stmt.spellingsOfEach] using hmore
  | statement :: statements, hspelt, hshown, rest, spellings, hmore => by
    have htext : (String.join ((Stmt.renderEach (statement :: statements)).map
          (· ++ " "))).toList ++ rest =
        statement.render.toList ++ ' ' ::
          ((String.join ((Stmt.renderEach statements).map (· ++ " "))).toList ++ rest) := by
      simp [Stmt.renderEach]
    have hothers := Stmt.scans_each statements hspelt.2 hshown.2 hmore
    have hfirst := statement.scans hspelt.1 hshown.1 (closes_blank _) (.blank hothers)
    rw [htext, Stmt.spellingsOfEach, List.append_assoc]
    exact hfirst

theorem Block.scans : ∀ block : Block, block.Everywhere spelt → block.Everywhere shown →
    ∀ {rest spellings}, Scans rest spellings →
    Scans (block.render.toList ++ rest) (block.spellings ++ spellings)
  | ⟨token, body⟩, hspelt, hshown, rest, spellings, hmore => by
    have htext : (Block.mk token body).render.toList ++ rest =
        "\x7b".toList ++ ' ' :: ((String.join ((Stmt.renderEach body).map (· ++ " "))).toList ++
          ("\x7d".toList ++ rest)) := by
      simp [Block.render]
    have hbody := Stmt.scans_each body hspelt.2 hshown.2 (.mark .closeCurly "\x7d" hmore)
    have hopen := Scans.beforeBlank .openCurly "\x7b" hbody
    rw [htext]
    simpa [Block.spellings] using hopen

end

end BraceLang
