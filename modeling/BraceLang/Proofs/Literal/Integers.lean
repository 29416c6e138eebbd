import BraceLang.Proofs.Literal.Numerals
import BraceLang.Proofs.Literal.Strings
import BraceLang.Proofs.Syntax.Program

/-!
# Integer literals

A literal is the integer that its text writes, or it is refused: no value wraps.

* At a token of the kind `integer` the text decides, whatever it is: the tokens of a source
  have digits, but those of a list may have a sign or anything else (`Parser.readsInteger`).
* A source of digits is one token with this text (`rest_start_digits`), and the program is this
  literal or nothing.
* A sign in front of the digits is an operator and no part of the literal.  So the digits are
  read as without it, and the most negative integer has no literal.  The lemmas about programs
  take any number of signs, of which the sources have none or one (`items_of_numeral`,
  `items_of_out_of_range`).
-/

namespace BraceLang

open Text Grammar Descent Outcome Syntax

variable {σ : Type} [TokenSource σ]

/-! ## The literal at the current token -/

section Literal

variable {token : Token} {number : Int64} {cursor : Cursor σ}

theorem Token.literal_of_numeral (hkind : token.kind = .integer)
    (hread : readInt64? token.text = some number) : token.literal = .ok (.int token number) := by
  unfold Token.literal
  rw [hkind]
  simp only [hread]

theorem Token.literal_of_out_of_range (hkind : token.kind = .integer)
    (hnone : readInt64? token.text = none) :
    token.literal = .error (.notInteger token.text) := by
  unfold Token.literal
  rw [hkind]
  simp only [hnone]

theorem literal_of_numeral (hkind : cursor.current.kind = .integer)
    (hread : readInt64? cursor.current.text = some number) :
    literal cursor = .ok (.int cursor.current number) cursor := by
  apply eq_ok_of_ensures
  rw [ensures_literal, Token.literal_of_numeral hkind hread]
  refine ⟨fun expression hok => ?_, fun cause herror => by cases herror⟩
  cases hok
  exact ⟨rfl, rfl⟩

theorem literal_of_out_of_range (hkind : cursor.current.kind = .integer)
    (hnone : readInt64? cursor.current.text = none) :
    literal cursor =
      .fail ⟨.notInteger cursor.current.text, cursor.current.start⟩ cursor := by
  apply eq_fail_of_ensures
  rw [ensures_literal, Token.literal_of_out_of_range hkind hnone]
  refine ⟨fun expression hok => by (cases hok), fun cause herror => ?_⟩
  cases herror
  exact ⟨rfl, rfl⟩

end Literal

/-- The literal at the current token is the integer that the text of the token writes.  It is
refused if the text writes none, or one that 64 bits do not hold. -/
structure Parser.ReadsInteger (parser : Parser σ) : Prop where
  accepted : ∀ value, Numeral parser.current.text.toList value → Fits value →
    ∃ number : Int64, number.toInt = value ∧
      parser.parseExpr (.lead .literal) = .ok (.int parser.current number) parser ∧
      (Expr.int parser.current number).render = parser.current.text
  refused : (∀ value, Numeral parser.current.text.toList value → ¬ Fits value) →
    parser.parseExpr (.lead .literal) =
      .fail ⟨.notInteger parser.current.text, parser.current.start⟩ parser

theorem Parser.readsInteger {parser : Parser σ} (hkind : parser.current.kind = .integer) :
    parser.ReadsInteger where
  accepted value hnumeral hfits := by
    obtain ⟨number, _, rfl⟩ := fit?_of_fits hfits
    have hliteral : literal parser.cursor = .ok (.int parser.current number) parser.cursor :=
      literal_of_numeral hkind (readInt64?_eq_some_iff.2 hnumeral)
    exact ⟨number, rfl, congrArg (mapState _) hliteral, rfl⟩
  refused hout := by
    have hliteral : literal parser.cursor =
        .fail ⟨.notInteger parser.current.text, parser.current.start⟩ parser.cursor :=
      literal_of_out_of_range hkind (readInt64?_eq_none_iff.2 hout)
    exact congrArg (mapState _) hliteral

/-! ## Signs and a literal -/

section Signs

variable {cursor : Cursor σ} {signs : List Token} {numeral : Token} {number : Int64}

/-- The operand with the operators in front of it. -/
def signed (signs : List Token) (operand : Expr) : Expr :=
  signs.foldr (fun sign operand => .unary sign sign.text operand) operand

theorem derives_signed (hsigns : ∀ sign ∈ signs, sign.kind = .dash)
    (hkind : numeral.kind = .integer) (hread : readInt64? numeral.text = some number) :
    Derives (.expr 5) (signs ++ [numeral]) (signed signs (.int numeral number)) := by
  induction signs with
  | nil =>
    have hliteral : Derives (.expr 7) [numeral] (.int numeral number) := .int hkind hread
    exact hliteral.loosen (by decide) (by decide)
  | cons sign signs ih =>
    obtain ⟨hsign, hothers⟩ := List.forall_mem_cons.1 hsigns
    exact .unary (.inr hsign) (ih hothers)

/-- Signs and a literal in range are a program of one statement. -/
theorem items_of_numeral (hsigns : ∀ sign ∈ signs, sign.kind = .dash)
    (hkind : numeral.kind = .integer) (hrest : cursor.rest = signs ++ [numeral])
    (hread : readInt64? numeral.text = some number) :
    (items standard cursor).1 =
      [.ok (.expr cursor.current (signed signs (.int numeral number)))] := by
  have hne : cursor.current.kind ≠ .eof := mt Cursor.rest_of_eof (by simp [hrest])
  have hvalue := (derives_signed hsigns hkind hread).loosen (Nat.zero_le 5) (by decide)
  rw [← hrest, Cursor.rest_of_ne_eof hne] at hvalue
  have hstmt : Derives (.stmt (firstKind [] .eof)) _ (.expr cursor.current _) :=
    .expr hvalue (.omitted (by decide))
  have hstmts : Derives (.stmts .eof) _ [_] := .moreStmts hstmt .noStmts
  rw [List.append_nil, List.append_nil, ← Cursor.rest_of_ne_eof hne] at hstmts
  exact items_of_derives hstmts

/-- Where the leading rule gives up, so does the expression. -/
theorem expr_of_lead_fail {rule : LeadingRule} {diagnostic : Diagnostic} {moved : Cursor σ}
    (hrule : standard.leading cursor.current.kind = some rule)
    (h : (reader standard).lead rule cursor = .fail diagnostic moved) (floor : BindingPower) :
    (reader standard).expr floor cursor = .fail diagnostic moved := by
  apply eq_fail_of_ensures
  rw [reader_expr standard_stopsAtEnd, ensures_exprStep, hrule]
  refine ⟨fun rule' hrule' => ?_, fun hnone => by cases hnone⟩
  cases hrule'
  rw [h]
  exact ⟨rfl, rfl⟩

/-- The operators lead to the literal, and its diagnostic is theirs. -/
theorem expr_of_out_of_range (hsigns : ∀ sign ∈ signs, sign.kind = .dash)
    (hkind : numeral.kind = .integer) (hrest : cursor.rest = signs ++ [numeral])
    (hnone : readInt64? numeral.text = none) (floor : BindingPower) :
    (reader standard).expr floor cursor =
      .fail ⟨.notInteger numeral.text, numeral.start⟩ (cursor.skip signs.length) := by
  induction signs generalizing cursor floor with
  | nil =>
    obtain rfl : cursor.current = numeral := by
      rw [← Cursor.headD_rest, hrest]
      rfl
    have hrule : standard.leading cursor.current.kind = some .literal := by
      rw [hkind]
      rfl
    exact expr_of_lead_fail hrule (literal_of_out_of_range hkind hnone) floor
  | cons sign signs ih =>
    obtain ⟨hsign, hothers⟩ := List.forall_mem_cons.1 hsigns
    obtain rfl : cursor.current = sign := by
      rw [← Cursor.headD_rest, hrest]
      rfl
    have hrule : standard.leading cursor.current.kind = some .operator := by
      rw [hsign]
      rfl
    have hadvance : cursor.advance.rest = signs ++ [numeral] := by
      rw [Cursor.rest_advance, hrest]
      rfl
    refine expr_of_lead_fail hrule (eq_fail_of_ensures (ensures_operator.2 ?_)) floor
    rw [ih hothers hadvance .unary, List.length_cons, Cursor.skip_succ]
    exact ⟨rfl, rfl⟩

theorem stmt_of_out_of_range (hsigns : ∀ sign ∈ signs, sign.kind = .dash)
    (hkind : numeral.kind = .integer) (hrest : cursor.rest = signs ++ [numeral])
    (hnone : readInt64? numeral.text = none) :
    (reader standard).stmt cursor =
      .fail ⟨.notInteger numeral.text, numeral.start⟩ (cursor.skip signs.length) := by
  have hstatement : standard.statement cursor.current.kind = none := by
    rw [← Cursor.headD_rest, hrest]
    cases signs with
    | nil =>
      show standard.statement numeral.kind = none
      rw [hkind]
      rfl
    | cons sign signs =>
      show standard.statement sign.kind = none
      rw [hsigns sign List.mem_cons_self]
      rfl
  apply eq_fail_of_ensures
  rw [reader_stmt standard_stopsAtEnd, ensures_stmtStep, hstatement]
  refine ⟨fun rule hrule => (by cases hrule), fun _ => ?_⟩
  rw [ensures_expression, expr_of_out_of_range hsigns hkind hrest hnone]
  exact ⟨rfl, rfl⟩

/-- Recovery from the last token of a source leads to the end. -/
theorem synchronize_of_last (hrest : cursor.rest = [numeral]) (hkind : numeral.kind = .integer)
    (base : Nat) : (cursor.synchronize base).advance.current.kind = .eof := by
  have hcurrent : cursor.current.kind = .integer := by
    rw [← Cursor.headD_rest, hrest]
    exact hkind
  have hend : cursor.advance.current.kind = .eof := by
    rw [← Cursor.rest_eq_nil_iff, Cursor.rest_advance, hrest]
    rfl
  rw [Cursor.synchronize_advance (by simp [hcurrent]) (by simp [hcurrent]) (by simp [hcurrent]),
    Cursor.synchronize_of_eof hend, Cursor.advance_of_eof hend]
  exact hend

/-- Signs and a literal out of range are one broken statement. -/
theorem items_of_out_of_range (hsigns : ∀ sign ∈ signs, sign.kind = .dash)
    (hkind : numeral.kind = .integer) (hrest : cursor.rest = signs ++ [numeral])
    (hnone : readInt64? numeral.text = none) :
    (items standard cursor).1 = [.error ⟨.notInteger numeral.text, numeral.start⟩] := by
  have hne : cursor.current.kind ≠ .eof := mt Cursor.rest_of_eof (by simp [hrest])
  have hlast : (cursor.skip signs.length).rest = [numeral] := by
    rw [Cursor.rest_skip, hrest, List.drop_left]
  have hstmt := stmt_of_out_of_range hsigns hkind hrest hnone
  rw [items_of_fail standard_stopsAtEnd hne hstmt,
    items_of_eof (synchronize_of_last hlast hkind cursor.outerDepth)]

end Signs

/-! ## Sources -/

section Sources

variable {digits : String} {file : Option String}

/-- Digits are one lexeme. -/
theorem lexed_digits (h : Digits digits.toList) : Lexed (.integer, digits) digits.toList [] := by
  obtain ⟨hne, hall⟩ := h
  have hfirst : Lexeme.first? (digits.toList ++ []) = some ⟨.numeral, digits.toList, []⟩ := by
    obtain ⟨c, cs, hcons⟩ := List.exists_cons_of_ne_nil hne
    rw [hcons] at hall ⊢
    obtain ⟨hc, hcs⟩ := List.forall_mem_cons.1 hall
    exact Lexeme.first?_numeral hc hcs (by simp)
  refine .lexeme hfirst ?_
  rw [LexemeClass.token?, String.ofList_toList]

/-- The token of a source of digits. -/
def numeralToken (digits : String) (file : Option String) : Token :=
  let name := file.getD Scanner.defaultFile
  ⟨.integer, digits, ⟨0, name⟩, ⟨digits.utf8ByteSize, name⟩⟩

theorem rest_start_digits (h : Digits digits.toList) :
    (Cursor.start (Scanner.ofSource digits file)).rest = [] ++ [numeralToken digits file] := by
  have htokens : TokenSource.tokens (Scanner.ofSource digits file) =
      [numeralToken digits file] ++ [.eof _] := tokenize_of_lexed file (lexed_digits h)
  exact (Cursor.rest_start_of_tokens htokens).1

theorem rest_start_negated (h : Digits digits.toList) (file : Option String) :
    ∃ sign numeral : Token, sign.kind = .dash ∧ numeral.kind = .integer ∧ numeral.text = digits ∧
      (Cursor.start (Scanner.ofSource ("-" ++ digits) file)).rest = [sign] ++ [numeral] := by
  have hsign : Lexed (.dash, "-") ['-'] digits.toList := by
    have hmem : LexemeClass.fixed .dash "-" ∈ LexemeClass.table := by decide
    exact .lexeme (Lexeme.first?_fixed hmem fun _ _ => rfl) rfl
  let scanner := Scanner.ofSource ("-" ++ digits) file
  let moved := scanner.past ['-'] digits.toList
  let sign : Token := ⟨.dash, "-", scanner.spanOf ['-']⟩
  let numeral : Token := ⟨.integer, digits, moved.spanOf digits.toList⟩
  have hrest : scanner.rest = ['-'] ++ digits.toList := String.toList_append
  have hmoved : moved.rest = digits.toList ++ [] := (List.append_nil _).symm
  have hlast : TokenSource.tokens (moved.past digits.toList []) = [.eof _] :=
    Scanner.tokens_lastGap (.closed .nil)
  have hnumeral : TokenSource.tokens moved = numeral :: [.eof _] :=
    (Scanner.tokens_of_lexed (lexed_digits h) hmoved).trans (congrArg (numeral :: ·) hlast)
  have htokens : TokenSource.tokens scanner = ([sign] ++ [numeral]) ++ [.eof _] :=
    (Scanner.tokens_of_lexed hsign hrest).trans (congrArg (sign :: ·) hnumeral)
  exact ⟨sign, numeral, rfl, rfl, rfl, (Cursor.rest_start_of_tokens htokens).1⟩

/-- Something is wrong with signs and a literal just if the literal is out of range. -/
theorem hasErrors_parse {source : σ} {signs : List Token} {numeral : Token}
    (hsigns : ∀ sign ∈ signs, sign.kind = .dash) (hkind : numeral.kind = .integer)
    (hrest : (Cursor.start source).rest = signs ++ [numeral]) :
    (parse source).hasErrors = (readInt64? numeral.text).isNone := by
  rw [parse_eq]
  cases hread : readInt64? numeral.text with
  | some number =>
    rw [items_of_numeral hsigns hkind hrest hread]
    rfl
  | none =>
    rw [items_of_out_of_range hsigns hkind hrest hread]
    rfl

/-- A source of digits is a program of one literal, with the number that has these digits.  If
this is out of range, the program is empty, and the literal is all that is wrong.  A sign in
front makes no difference to this. -/
structure ReadsDigits (digits : String) (file : Option String) : Prop where
  accepted : decimal digits.toList ≤ 9223372036854775807 →
    ∃ number : Int64, number.toInt = decimal digits.toList ∧
      parseSource digits file =
        ⟨⟨[.expr (numeralToken digits file) (.int (numeralToken digits file) number)]⟩, .empty⟩
  refused : 9223372036854775807 < decimal digits.toList →
    parseSource digits file =
      ⟨⟨[]⟩, ⟨[⟨.notInteger digits, (numeralToken digits file).start⟩]⟩⟩
  negated : (parseSource ("-" ++ digits) file).hasErrors = (parseSource digits file).hasErrors

theorem readsDigits (h : Digits digits.toList) (file : Option String) :
    ReadsDigits digits file where
  accepted hle := by
    have hfits : Fits (decimal digits.toList) := ⟨by omega, by omega⟩
    obtain ⟨number, _, hvalue⟩ := fit?_of_fits hfits
    have hread : readInt64? digits = some number :=
      readInt64?_eq_some_iff.2 (hvalue ▸ .bare h)
    have hcurrent : (Cursor.start (Scanner.ofSource digits file)).current =
        numeralToken digits file := by
      rw [← Cursor.headD_rest, rest_start_digits h]
      rfl
    refine ⟨number, hvalue, ?_⟩
    rw [parseSource, parse_eq, items_of_numeral (by simp) rfl (rest_start_digits h) hread, hcurrent]
    rfl
  refused hlt := by
    have hnone : readInt64? digits = none := by
      refine readInt64?_eq_none_iff.2 fun value hnumeral hfits => ?_
      rw [← readInteger?_eq_some_iff, readInteger?_digits h] at hnumeral
      cases hnumeral
      have hle := hfits.2
      omega
    rw [parseSource, parse_eq, items_of_out_of_range (by simp) rfl (rest_start_digits h) hnone]
    rfl
  negated := by
    obtain ⟨sign, numeral, hsign, hkind, rfl, hrest⟩ := rest_start_negated h file
    have hsigns : ∀ sign' ∈ [sign], sign'.kind = .dash := by simpa using hsign
    rw [parseSource, hasErrors_parse hsigns hkind hrest, parseSource,
      hasErrors_parse (by simp) rfl (rest_start_digits h)]
    rfl

end Sources

/-- No literal wraps: at a token of the kind `integer` it is the integer that the text writes
or refused, whatever the text, and so are all digits that make a source. -/
theorem integers_never_wrap {parser : Parser σ} (hkind : parser.current.kind = .integer)
    {digits : String} (hdigits : Digits digits.toList) (file : Option String) :
    parser.ReadsInteger ∧ ReadsDigits digits file :=
  ⟨Parser.readsInteger hkind, readsDigits hdigits file⟩

/-- The most negative integer is the value of a token that writes it, but its digits alone are
out of range. -/
theorem integers_never_wrap_least :
    let place : Span := ⟨⟨0, "least"⟩, ⟨0, "least"⟩⟩
    let token : Token := ⟨.integer, "-9223372036854775808", place⟩
    let parser := Parser.start (TokenBuffer.ofList [token])
    parser.current.kind = .integer ∧ Digits "9223372036854775808".toList ∧
      parser.parseExpr (.lead .literal) = .ok (.int token Int64.minValue) parser ∧
      parseSource "9223372036854775808" none =
        ⟨⟨[]⟩, ⟨[⟨.notInteger "9223372036854775808", ⟨0, "shell"⟩⟩]⟩⟩ := by
  intro place token parser
  have hkind : parser.current.kind = .integer := rfl
  have hdigits : Digits "9223372036854775808".toList := by decide
  have htext : "-9223372036854775808".toList = '-' :: "9223372036854775808".toList := by decide
  have hdecimal : decimal "9223372036854775808".toList = 9223372036854775808 := by decide
  have hnumeral : Numeral parser.current.text.toList (-9223372036854775808) := by
    have hminus := Numeral.minus hdigits
    rwa [← htext, hdecimal] at hminus
  obtain ⟨hparser, hsource⟩ : parser.ReadsInteger ∧ ReadsDigits "9223372036854775808" none :=
    integers_never_wrap hkind hdigits none
  obtain ⟨number, hvalue, hliteral, _⟩ :=
    hparser.accepted _ hnumeral ⟨by decide, by decide⟩
  obtain rfl : number = Int64.minValue := Int64.toInt_inj.1 hvalue
  exact ⟨hkind, hdigits, hliteral, hsource.refused (by decide)⟩

end BraceLang
