import BraceLang.Proofs.Parser.Simulation
import BraceLang.Proofs.Recovery.Segments

/-!
# Sources that are read apart

Where a semicolon stands outside of braces, whatever comes before it is read as if
nothing came behind it, and whatever comes behind it as if nothing came before
(`parseTokens_append`).

The proof compares two readings, one of the first part alone and one of both
parts, turn by turn.  They agree on all tokens of the first part, and no turn that
begins there gets to see any other before it is decided:

* a broken statement does not pass the last semicolon (`rest_ne_nil_of_stays`), and
  its diagnostic blames no token behind it;
* a statement in front of other tokens of the first part sees one more token than
  it takes;
* the last statement of the first part has the semicolon, so it is the same in
  front of any token (`derives_of_closed`).
-/

namespace BraceLang.Recovery

open Grammar Syntax

variable {σ τ : Type} [TokenSource σ] [TokenSource τ] {start moved place : Cursor σ}
  {start' : Cursor τ} {ts us vs : List Token}

/-! ## Closed parts -/

/-- The tokens end with a semicolon outside of braces. -/
structure Closed (ts : List Token) : Prop where
  ends : EndsWith (· = .semicolon) ts
  depth_eq : braceDepth 0 ts = 0

/-- A closed part without a beginning that leaves no brace open. -/
theorem Closed.of_append (h : Closed (ts ++ us)) (hts : braceDepth 0 ts = 0) (hus : us ≠ []) :
    Closed us := by
  refine ⟨h.ends.of_append hus, ?_⟩
  have hdepth := h.depth_eq
  rwa [braceDepth_append, hts] at hdepth

/-- The last semicolon ends a statement. -/
theorem Closed.not_unended (h : Closed ts) : ¬ Unended ts := by
  intro hunended
  obtain ⟨hends, hdepth⟩ := h
  cases hends with
  | @intro us token hkind =>
    have hpos := hunended us token [] rfl hkind
    rw [braceDepth_concat, hkind] at hdepth
    exact absurd hdepth (Nat.ne_of_gt hpos)

/-- Inside a statement there is always something left of a closed part. -/
theorem rest_ne_nil_of_stays (hclosed : Closed start.rest) (hopens : Opens 0 start)
    (hstays : Stays 0 start place) : place.rest ≠ [] := by
  intro hnil
  obtain ⟨ts, hts⟩ := hstays
  have hrest := hts.rest_eq fun _ hinside => hinside.ne_eof
  rw [hnil, List.append_nil] at hrest
  rw [hrest] at hclosed
  exact hclosed.not_unended (unended_of_passes hts hopens)

/-- What ends with a semicolon, and has none before its terminator, has it there. -/
theorem terminator_of_endsWith {follow follow' : TokenKind} (h : Terminator follow us)
    (hends : EndsWith (· = .semicolon) (ts ++ us)) (hopen : EndsWith (· ≠ .semicolon) ts) :
    Terminator follow' us := by
  cases h with
  | semicolon token hkind => exact .semicolon token hkind
  | omitted =>
    rw [List.append_nil] at hends
    exact (hends.absurd hopen).elim

/-- A statement with its semicolon can be in front of any token. -/
theorem derives_of_closed {follow follow' : TokenKind} {statement : Stmt}
    (hends : EndsWith (· = .semicolon) ts) (h : Derives (.stmt follow) ts statement) :
    Derives (.stmt follow') ts statement := by
  cases h with
  | @bind _ ts us word name sign value hword hname hsign hvalue hend =>
    have hopen := ((hvalue.endsOpen.cons sign).cons name).cons word
    exact .bind hword hname hsign hvalue (terminator_of_endsWith hend hends hopen)
  | @ret _ ts us word value hword hvalue hend =>
    have hopen := hvalue.endsOpen.cons word
    exact .ret hword hvalue (terminator_of_endsWith hend hends hopen)
  | bareRet hword hend =>
    refine .bareRet hword ?_
    cases hend with
    | semicolon token hkind => exact .semicolon token hkind
    | omitted => exact (hends.absurd (.single (by rw [hword]; decide))).elim
  | expr hvalue hend => exact .expr hvalue (terminator_of_endsWith hend hends hvalue.endsOpen)

/-! ## Two readings -/

/-- What is left from `start` is left from `start'` as well, and then more. -/
structure Extended (start : Cursor σ) (start' : Cursor τ) (more : List Token) : Prop where
  rest_eq : start'.rest = start.rest ++ more
  opens : Opens 0 start
  opens' : Opens 0 start'

theorem lt_length_of_rest_ne_nil {count : Nat} (h : (start.skip count).rest ≠ []) :
    count < start.rest.length := by
  rw [Cursor.rest_skip] at h
  exact Nat.not_le.1 fun hle => h (List.drop_eq_nil_of_le hle)

/-- The two readings, with nothing left aside. -/
def comparison (start : Cursor σ) (start' : Cursor τ) : Comparison σ τ :=
  ⟨.none, standard, standard, start, start'⟩

theorem mirrors_stmt (start : Cursor σ) (start' : Cursor τ) :
    (comparison start start').Mirrors 2 0 (Stmt.erase .none) ((reader standard).stmt start)
      ((reader standard).stmt start') :=
  (Comparison.reader_parallel standard_stopsAtEnd standard_stopsAtEnd).stmt 0 0 (Nat.zero_le _)

/-! ### The same outcome -/

section SameOutcome

variable (hrest : start'.rest = start.rest ++ vs)
include hrest

theorem agree_of_le {count : Nat} (hle : count ≤ start.rest.length) :
    (comparison start start').Agree count :=
  (agree_of_rest_append .none standard (List.append_nil _).symm hrest).mono hle

/-- A statement of the first part with another token behind it is read in both. -/
theorem ok_of_ok {statement : Stmt}
    (hstmt : (reader standard).stmt start = .ok statement moved) :
    ∃ place, moved = start.skip place ∧ (place + 2 ≤ start.rest.length →
      (reader standard).stmt start' = .ok statement (start'.skip place)) := by
  have hmirrors := mirrors_stmt start start'
  rw [hstmt] at hmirrors
  obtain ⟨place, count, hmoved, _, hcount, hagree⟩ := hmirrors
  refine ⟨place, hmoved, fun hle => ?_⟩
  obtain ⟨statement', hstmt', herase⟩ := hagree (agree_of_le hrest (Nat.le_trans hcount hle))
  have heq : statement = statement' :=
    statement.erase_none.symm.trans (herase.trans statement'.erase_none)
  rw [heq]
  exact hstmt'

/-- A diagnostic that blames a token of the first part is given in both. -/
theorem fail_of_fail {diagnostic : Diagnostic}
    (hstmt : (reader standard).stmt start = .fail diagnostic moved) :
    ∃ place, moved = start.skip place ∧ (place + diagnostic.reach ≤ start.rest.length →
      (reader standard).stmt start' = .fail diagnostic (start'.skip place)) := by
  have hmirrors := mirrors_stmt start start'
  rw [hstmt] at hmirrors
  obtain ⟨place, count, hmoved, _, hcount, hagree⟩ := hmirrors
  refine ⟨place, hmoved, fun hle => ?_⟩
  obtain ⟨diagnostic', hstmt', herase⟩ := hagree (agree_of_le hrest (Nat.le_trans hcount hle))
  have heq : diagnostic = diagnostic' :=
    diagnostic.erase_none.symm.trans (herase.trans diagnostic'.erase_none)
  rw [heq]
  exact hstmt'

end SameOutcome

/-- A statement of closed tokens that is given up blames one of them. -/
theorem add_reach_le (hclosed : Closed start.rest) (hopens : Opens 0 start)
    {diagnostic : Diagnostic} {place : Nat}
    (hstmt : (reader standard).stmt start = .fail diagnostic (start.skip place)) :
    place + diagnostic.reach ≤ start.rest.length := by
  have hbreaks := breaks_of_stmt_fail hopens hstmt
  have hinside := rest_ne_nil_of_stays hclosed hopens hbreaks.stays
  rcases hbreaks.blames with ⟨_, hcurrent⟩ | ⟨hplace, _⟩
  · rw [hcurrent fun heof => hinside (Cursor.rest_of_eof heof)]
    exact lt_length_of_rest_ne_nil hinside
  · have hnext : (start.skip (place + 1)).rest ≠ [] :=
      rest_ne_nil_of_stays hclosed hopens (hbreaks.stays.advance hplace)
    have hlt := lt_length_of_rest_ne_nil hnext
    have hle := diagnostic.reach_le
    omega

theorem kind_eq_of_endsWith {kind : TokenKind} {count : Nat}
    (hends : EndsWith (· = kind) start.rest) (hlt : count < start.rest.length)
    (hnil : (start.skip (count + 1)).rest = []) :
    (start.skip count).current.kind = kind := by
  have hpasses := Cursor.passes_skip (Nat.le_of_lt hlt)
  have hrest := (hpasses.snoc (Cursor.current_skip_ne_eof hlt)).rest_eq fun _ => id
  rw [show (start.skip count).advance = start.skip (count + 1) from rfl, hnil,
    List.append_nil] at hrest
  rw [hrest] at hends
  exact endsWith_concat.1 hends

namespace Extended

theorem depth_eq (h : Extended start start' vs) (hne : start.rest ≠ []) :
    start.depth = start'.depth := by
  have hcurrent : start.current = start'.current :=
    current_skip_eq_of_lt (List.append_nil _).symm h.rest_eq (List.length_pos_iff.2 hne)
  rw [h.opens, h.opens', hcurrent]

theorem current_ne_eof (h : Extended start start' vs) (hne : start.rest ≠ []) :
    start'.current.kind ≠ .eof := by
  intro heof
  have hnil := Cursor.rest_of_eof heof
  rw [h.rest_eq] at hnil
  exact hne (List.append_eq_nil_iff.1 hnil).1

/-- What is left after some tokens that leave no brace open. -/
theorem skip (h : Extended start start' vs) {count : Nat} (hle : count ≤ start.rest.length)
    (hdepth : braceDepth 0 (start.rest.take count) = 0) :
    Extended (start.skip count) (start'.skip count) vs := by
  have hle' : count ≤ start'.rest.length := by
    rw [h.rest_eq, List.length_append]
    exact Nat.le_trans hle (Nat.le_add_right _ _)
  have htake : start'.rest.take count = start.rest.take count := by
    rw [h.rest_eq, List.take_append_of_le_length hle]
  refine ⟨?_, ?_, ?_⟩
  · rw [Cursor.rest_skip, Cursor.rest_skip, h.rest_eq, List.drop_append_of_le_length hle]
  · have hopens := opens_of_passes (Cursor.passes_skip hle) h.opens
    rwa [hdepth] at hopens
  · have hopens := opens_of_passes (Cursor.passes_skip hle') h.opens'
    rwa [htake, hdepth] at hopens

/-! ### The same recovery -/

/-- Recovery that stops in the first part stops at the same place in both.  It
looks at one token more only where it stops at a closing brace, and that is not
the last token. -/
theorem synchronize_eq (h : Extended start start' vs)
    (hends : EndsWith (· = .semicolon) start.rest) (place : Nat)
    (hne : ((start.skip place).synchronize 0).rest ≠ []) :
    ∃ stop, (start.skip place).synchronize 0 = start.skip stop ∧ stop < start.rest.length ∧
      (start'.skip place).synchronize 0 = start'.skip stop := by
  have hdepth := h.depth_eq hends.ne_nil
  obtain ⟨stop, count, hstop, _, _, hcount, hlast, hsame⟩ :=
    (comparison start start').synchronize_skip 0 place hdepth
  have hlt : stop < start.rest.length := lt_length_of_rest_ne_nil (hstop ▸ hne)
  refine ⟨stop, hstop, hlt, hsame (agree_of_le h.rest_eq ?_)⟩
  by_cases hmore : stop + 2 ≤ start.rest.length
  · exact Nat.le_trans hcount hmore
  · refine Nat.le_trans (hlast (kind_eq_of_endsWith hends hlt ?_)) hlt
    rw [Cursor.rest_skip]
    exact List.drop_eq_nil_of_le (Nat.le_of_lt_succ (Nat.not_le.1 hmore))

end Extended

/-! ## Turns of the first part -/

/-- No brace is open after a turn of the first part. -/
theorem depth_take {segment : Segment} {count : Nat} (hclosed : Closed start.rest)
    (htaken : Taken start segment (start.skip count)) :
    braceDepth 0 (start.rest.take count) = 0 := by
  by_cases hle : start.rest.length ≤ count
  · rw [List.take_of_length_le hle]
    exact hclosed.depth_eq
  · have hrest := htaken.passes.rest_eq fun _ => id
    have htake := (Cursor.passes_skip (Nat.le_of_not_le hle)).rest_eq fun _ => id
    rw [List.append_cancel_right (htake.symm.trans hrest)]
    apply htaken.depth_eq
    intro heof
    have hnil := Cursor.rest_of_eof heof
    rw [Cursor.rest_skip] at hnil
    exact hle (List.drop_eq_nil_iff.1 hnil)

/-- A statement of the first part is read in both. -/
theorem Extended.stmt_ok (h : Extended start start' vs) (hclosed : Closed start.rest)
    {statement : Stmt} (hstmt : (reader standard).stmt start = .ok statement moved)
    (hreads : start.Reads ts moved) (hderives : Derives (.stmt moved.peek.kind) ts statement) :
    ∃ moved', (reader standard).stmt start' = .ok statement moved' ∧ start'.Reads ts moved' := by
  have hrest := hreads.rest_eq
  by_cases hmore : moved.advance.rest = []
  · -- The statement has the last semicolon, so it can be in front of any token.
    rw [hmore, List.append_nil] at hrest
    have hreads' : ∃ moved', start'.Reads ts moved' ∧ moved'.advance.rest = vs :=
      Cursor.exists_reads hreads.ne_nil (by rw [h.rest_eq, hrest])
    obtain ⟨moved', hreads', _⟩ := hreads'
    have hends : EndsWith (· = .semicolon) ts := hrest ▸ hclosed.ends
    have hderives' : Derives (.stmt moved'.peek.kind) ts statement :=
      derives_of_closed hends hderives
    exact ⟨moved', recovers_of_derives hderives' start' moved' hreads' rfl (.inl hends), hreads'⟩
  · -- The token behind the statement is the last one that was looked at.
    obtain ⟨place, rfl, hsame⟩ := ok_of_ok h.rest_eq hstmt
    have hlength : place + 1 < start.rest.length := lt_length_of_rest_ne_nil hmore
    have htake := (Cursor.reads_skip (Nat.lt_of_succ_lt hlength)).rest_eq
    have hts : ts = start'.rest.take (place + 1) := by
      rw [h.rest_eq, List.take_append_of_le_length (Nat.le_of_lt hlength)]
      exact List.append_cancel_right (hrest.symm.trans htake)
    refine ⟨start'.skip place, hsame hlength, ?_⟩
    rw [hts]
    apply Cursor.reads_skip
    rw [h.rest_eq, List.length_append]
    omega

/-- A statement that is broken in the first part is broken in both, and recovery
from it stops in the first part. -/
theorem Extended.stmt_fail (h : Extended start start' vs) (hclosed : Closed start.rest)
    {diagnostic : Diagnostic} (hstmt : (reader standard).stmt start = .fail diagnostic moved) :
    ∃ moved' stop, (reader standard).stmt start' = .fail diagnostic moved' ∧
      stop < start.rest.length ∧ moved.synchronize 0 = start.skip stop ∧
      moved'.synchronize 0 = start'.skip stop := by
  have hbreaks := breaks_of_stmt_fail h.opens hstmt
  have hstop := rest_ne_nil_of_stays hclosed h.opens
    (hbreaks.stays.trans (stays_synchronize moved).1)
  obtain ⟨place, rfl, hsame⟩ := fail_of_fail h.rest_eq hstmt
  have hreach := add_reach_le hclosed h.opens hstmt
  obtain ⟨stop, hstopEq, hlt, hstopEq'⟩ := h.synchronize_eq hclosed.ends place hstop
  exact ⟨_, stop, hsame hreach, hlt, hstopEq, hstopEq'⟩

/-- A turn of the first part gives the same in both. -/
theorem Extended.turn (h : Extended start start' vs) (hclosed : Closed start.rest) :
    ∃ item count, 0 < count ∧ count ≤ start.rest.length ∧
      braceDepth 0 (start.rest.take count) = 0 ∧
      (items standard start).1 = item :: (items standard (start.skip count)).1 ∧
      (items standard start').1 = item :: (items standard (start'.skip count)).1 := by
  have hnonempty := hclosed.ends.ne_nil
  have hne : start.current.kind ≠ .eof := fun heof => hnonempty (Cursor.rest_of_eof heof)
  have hne' := h.current_ne_eof hnonempty
  rcases stmt_ok_or_fail standard_stopsAtEnd start with
    ⟨statement, moved, hstmt⟩ | ⟨diagnostic, moved, hstmt⟩
  · obtain ⟨ts, hreads, hderives⟩ := finds_of_stmt_ok hstmt
    have htaken := taken_of_ok h.opens hne hstmt hreads hderives
    obtain ⟨moved', hstmt', hreads'⟩ := h.stmt_ok hclosed hstmt hreads hderives
    have hlength : ts.length ≤ start.rest.length := by
      rw [hreads.rest_eq, List.length_append]
      exact Nat.le_add_right _ _
    rw [hreads.passes.skip_eq] at htaken
    refine ⟨_, ts.length, List.length_pos_iff.2 hreads.ne_nil, hlength,
      depth_take hclosed htaken, htaken.items, ?_⟩
    rw [items_of_ok standard_stopsAtEnd hne' hstmt', hreads'.passes.skip_eq]
  · obtain ⟨ts, htaken⟩ := taken_of_fail h.opens hne hstmt
    obtain ⟨moved', stop, hstmt', hlt, hstop, hstop'⟩ := h.stmt_fail hclosed hstmt
    rw [hstop] at htaken
    refine ⟨_, stop + 1, Nat.succ_pos stop, hlt, depth_take hclosed htaken, htaken.items, ?_⟩
    rw [items_of_fail standard_stopsAtEnd hne' hstmt', outerDepth_of_opens h.opens', hstop']
    rfl

/-- The turns of both parts are those of the first part, and then those behind
it. -/
theorem Extended.items_eq {start : Cursor σ} {start' : Cursor τ} (h : Extended start start' vs)
    (hclosed : start.rest ≠ [] → Closed start.rest) :
    (items standard start').1 =
      (items standard start).1 ++ (items standard (start'.skip start.rest.length)).1 := by
  by_cases hnil : start.rest = []
  · rw [items_of_eof (Cursor.rest_eq_nil_iff.1 hnil), hnil]
    rfl
  · obtain ⟨item, count, hpos, hle, hdepth, hitems, hitems'⟩ := h.turn (hclosed hnil)
    have hshorter : (start.skip count).rest.length < start.rest.length := by
      rw [Cursor.rest_skip, List.length_drop]
      omega
    have hothers := (h.skip hle hdepth).items_eq fun hmore => by
      have hwhole := hclosed hnil
      rw [← List.take_append_drop count start.rest] at hwhole
      rw [Cursor.rest_skip] at hmore ⊢
      exact hwhole.of_append hdepth hmore
    rw [hitems, hitems', hothers, ← Cursor.skip_add, Cursor.rest_skip, List.length_drop,
      Nat.add_sub_cancel' hle]
    rfl
termination_by start.rest.length

/-! ## Lists of tokens -/

/-- The turns from a place where no brace is open and the tokens `more` are left. -/
theorem items_eq_itemsOf {tokens more : List Token} {cursor : Cursor TokenBuffer}
    (h : ∀ token ∈ tokens, token.kind ≠ .eof)
    (hrest : cursor.rest = more.takeWhile fun token => token.kind ≠ .eof)
    (hlast : cursor.last = TokenBuffer.endOf (tokens ++ more)) (hopens : Opens 0 cursor) :
    (items standard cursor).1 = itemsOf more := by
  have hmore : cursor.rest = (Cursor.start (TokenBuffer.ofList more)).rest := by
    rw [hrest, rest_start_ofList]
  by_cases hnil : (Cursor.start (TokenBuffer.ofList more)).rest = []
  · rw [items_of_eof (Cursor.rest_eq_nil_iff.1 (hmore.trans hnil)), itemsOf,
      items_of_eof (Cursor.rest_eq_nil_iff.1 hnil)]
  · have hlast' : cursor.last = (Cursor.start (TokenBuffer.ofList more)).last := by
      rw [hlast, last_start_ofList, endOf_append h]
      intro heq
      subst heq
      exact hnil (rest_start_ofList [])
    refine items_eq_of_rest_eq standard_stopsAtEnd ?_ hmore hlast'
    rw [hopens, opens_start, ← Cursor.headD_rest, hmore, hlast', Cursor.headD_rest]

/-- The turns of tokens that end with a semicolon outside of braces, and of any
others behind them. -/
theorem itemsOf_append {tokens : List Token} (more : List Token)
    (h : ∀ token ∈ tokens, token.kind ≠ .eof) (hclosed : Closed tokens) :
    itemsOf (tokens ++ more) = itemsOf tokens ++ itemsOf more := by
  have hrest : (Cursor.start (TokenBuffer.ofList tokens)).rest = tokens :=
    rest_start_of_ne_eof h
  have hrest' : (Cursor.start (TokenBuffer.ofList (tokens ++ more))).rest =
      tokens ++ more.takeWhile fun token => token.kind ≠ .eof := by
    rw [rest_start_ofList, takeWhile_append h]
  have hextended : Extended (Cursor.start (TokenBuffer.ofList tokens))
      (Cursor.start (TokenBuffer.ofList (tokens ++ more)))
      (more.takeWhile fun token => token.kind ≠ .eof) :=
    ⟨by rw [hrest', hrest], opens_start _, opens_start _⟩
  have hitems := hextended.items_eq fun _ => by rwa [hrest]
  rw [hrest] at hitems
  refine hitems.trans (congrArg (itemsOf tokens ++ ·) (items_eq_itemsOf h ?_ ?_ ?_))
  · rw [Cursor.rest_skip, hrest', List.drop_left]
  · rw [Cursor.last_skip, last_start_ofList]
  · have hle : tokens.length ≤
        (Cursor.start (TokenBuffer.ofList (tokens ++ more))).rest.length := by
      simp [hrest']
    have hopens := opens_of_passes (Cursor.passes_skip hle) (opens_start _)
    rwa [hrest', List.take_left, hclosed.depth_eq] at hopens

/-- Tokens that end with a semicolon outside of braces are read apart from all that
follows them, malformed or not: the statements and the diagnostics are theirs, and
then those of what follows. -/
theorem parseTokens_append (tokens more : List Token) (h : ∀ token ∈ tokens, token.kind ≠ .eof)
    (hsemicolon : tokens.getLast?.map Token.kind = some .semicolon)
    (hdepth : braceDepth 0 tokens = 0) :
    (parseTokens (tokens ++ more)).program.statements =
        (parseTokens tokens).program.statements ++ (parseTokens more).program.statements ∧
      (parseTokens (tokens ++ more)).diagnostics.entries =
        (parseTokens tokens).diagnostics.entries ++ (parseTokens more).diagnostics.entries := by
  have hends : EndsWith (· = .semicolon) tokens := by
    obtain ⟨token, hlast, hkind⟩ := Option.map_eq_some_iff.1 hsemicolon
    obtain ⟨ts, rfl⟩ := List.getLast?_eq_some_iff.1 hlast
    exact .intro hkind
  have hitems := itemsOf_append more h ⟨hends, hdepth⟩
  simp only [parseTokens_eq, hitems]
  exact ⟨List.filterMap_append, List.filterMap_append⟩

/-- A stray brace and a binding without a name do not disturb the statement behind
them. -/
theorem parseTokens_append_broken :
    let place : Span := ⟨⟨0, "broken"⟩, ⟨0, "broken"⟩⟩
    let semicolon : Token := ⟨.semicolon, ";", place⟩
    let broken : List Token :=
      [⟨.closeCurly, "\x7d", place⟩, ⟨.letWord, "let", place⟩, ⟨.assignment, "=", place⟩, semicolon]
    let sound : List Token := [⟨.identifier, "a", place⟩, semicolon]
    (∀ token ∈ broken, token.kind ≠ .eof) ∧
      broken.getLast?.map Token.kind = some .semicolon ∧ braceDepth 0 broken = 0 ∧
      (parseTokens (broken ++ sound)).program.statements =
        (parseTokens broken).program.statements ++ (parseTokens sound).program.statements ∧
      (parseTokens (broken ++ sound)).diagnostics.entries =
        (parseTokens broken).diagnostics.entries ++ (parseTokens sound).diagnostics.entries := by
  intro place semicolon broken sound
  have hkinds : ∀ token ∈ broken, token.kind ≠ .eof := by decide
  exact ⟨hkinds, rfl, rfl, parseTokens_append broken sound hkinds rfl rfl⟩

end BraceLang.Recovery
