import BraceLang.Proofs.Recovery.Interruption
import BraceLang.Proofs.Recovery.Isolation

/-!
# Broken statements in a block

A program with a single statement has a block, and a broken statement is inserted at its
beginning.  Then the first diagnostic is that of the inserted statement by itself, the
whole statement around it is dropped up to the brace that closes the outermost of its
open blocks, with a semicolon behind it, and what comes then is read as if it stood alone
(`parseTokens_insert`).

The reading of the program without the insertion gets over the brace of the block, so
the reading with it is given up there (`Fork.stmt_fail`).  From there on recovery passes
every token inside of braces (`synchronize_of_closes`).
-/

namespace BraceLang.Recovery

open Grammar Descent Outcome Syntax

variable {σ τ : Type} [TokenSource σ] [TokenSource τ] {start cursor moved : Cursor σ}
  {start' : Cursor τ} {ts us vs inside behind : List Token} {close : Token}
  {diagnostic : Diagnostic}

/-! ## Tokens without braces -/

/-- None of the tokens is a brace. -/
def Braceless (ts : List Token) : Prop :=
  ∀ token ∈ ts, token.kind ≠ .openCurly ∧ token.kind ≠ .closeCurly

theorem Braceless.braceDepth_eq (h : Braceless ts) (depth : Nat) : braceDepth depth ts = depth := by
  induction ts with
  | nil => rfl
  | cons token ts ih =>
    obtain ⟨⟨hopen, hclose⟩, hothers⟩ := List.forall_mem_cons.1 h
    rw [braceDepth_cons, depthAfter_of_ne hopen hclose]
    exact ih hothers

/-! ## Broken statements -/

section Stmts

variable (hclose : cursor.current.kind ≠ .closeCurly) (hne : cursor.current.kind ≠ .eof)
include hclose hne

theorem stmts_fail_of_first (h : (reader standard).stmt cursor = .fail diagnostic moved) :
    (reader standard).stmts cursor = .fail diagnostic moved := by
  apply eq_fail_of_ensures
  rw [reader_stmts standard_stopsAtEnd]
  refine ensures_stmtsStep.2 ⟨fun h => absurd h hclose, fun h => absurd h hne, fun _ _ => ?_⟩
  rw [h]
  exact ⟨rfl, rfl⟩

theorem stmts_fail_of_others {first : Stmt} {last : Cursor σ}
    (hfirst : (reader standard).stmt cursor = .ok first last)
    (h : (reader standard).stmts last.advance = .fail diagnostic moved) :
    (reader standard).stmts cursor = .fail diagnostic moved := by
  apply eq_fail_of_ensures
  rw [reader_stmts standard_stopsAtEnd]
  refine ensures_stmtsStep.2 ⟨fun h => absurd h hclose, fun h => absurd h hne, fun _ _ => ?_⟩
  rw [hfirst, ensures_ok, h]
  exact ⟨rfl, rfl⟩

end Stmts

/-- Closed tokens without braces are left, and no brace is open. -/
structure Flat (cursor : Cursor σ) : Prop where
  closed : Closed cursor.rest
  braceless : Braceless cursor.rest
  opens : Opens 0 cursor

theorem Flat.ne_eof (h : Flat cursor) : cursor.current.kind ≠ .eof := fun heof =>
  h.closed.ends.ne_nil (Cursor.rest_of_eof heof)

theorem Flat.ne_closeCurly (h : Flat cursor) : cursor.current.kind ≠ .closeCurly := by
  have hmem : cursor.current ∈ cursor.rest := by
    rw [Cursor.rest_of_ne_eof h.ne_eof]
    exact List.mem_cons_self
  exact (h.braceless _ hmem).2

theorem Flat.skip (h : Flat cursor) {count : Nat} (hmore : (cursor.skip count).rest ≠ []) :
    Flat (cursor.skip count) := by
  have hlt : count < cursor.rest.length := lt_length_of_rest_ne_nil hmore
  have hbefore : Braceless (cursor.rest.take count) := fun token hmem =>
    h.braceless token (List.mem_of_mem_take hmem)
  have hclosed := h.closed
  rw [← List.take_append_drop count cursor.rest] at hclosed
  have hopens := opens_of_passes (Cursor.passes_skip (Nat.le_of_lt hlt)) h.opens
  rw [hbefore.braceDepth_eq 0] at hopens
  rw [Cursor.rest_skip] at hmore
  refine ⟨?_, fun token hmem => ?_, hopens⟩
  · rw [Cursor.rest_skip]
    exact hclosed.of_append (hbefore.braceDepth_eq 0) hmore
  · rw [Cursor.rest_skip] at hmem
    exact h.braceless token (List.mem_of_mem_drop hmem)

/-- Closed tokens without braces that are broken as a program are broken as the
beginning of a block, at the same token. -/
theorem exists_stmts_fail {start : Cursor σ} {start' : Cursor τ} (hflat : Flat start)
    (hrest : start'.rest = start.rest ++ vs)
    (h : firstOf (items standard start).1 = some diagnostic) :
    ∃ count < start.rest.length,
      (reader standard).stmts start' = .fail diagnostic (start'.skip count) := by
  have hcurrent : start.current = start'.current :=
    current_skip_eq_of_lt (List.append_nil _).symm hrest
      (List.length_pos_iff.2 hflat.closed.ends.ne_nil)
  have hclose' : start'.current.kind ≠ .closeCurly := hcurrent ▸ hflat.ne_closeCurly
  have hne' : start'.current.kind ≠ .eof := hcurrent ▸ hflat.ne_eof
  rcases stmt_ok_or_fail standard_stopsAtEnd start with
    ⟨statement, moved, hstmt⟩ | ⟨first, moved, hstmt⟩
  · have hlt := remaining_advance_lt_of_ok standard_stopsAtEnd hflat.ne_eof hstmt
    rw [items_of_ok standard_stopsAtEnd hflat.ne_eof hstmt] at h
    obtain ⟨place, rfl, hsame⟩ := ok_of_ok hrest hstmt
    have hmore : (start.skip (place + 1)).rest ≠ [] := by
      intro hnil
      have heof : (start.skip place).advance.current.kind = .eof := Cursor.rest_eq_nil_iff.1 hnil
      rw [items_of_eof heof] at h
      cases h
    have hlength : place + 1 < start.rest.length := lt_length_of_rest_ne_nil hmore
    have hrestMore : (start'.skip (place + 1)).rest = (start.skip (place + 1)).rest ++ vs := by
      rw [Cursor.rest_skip, Cursor.rest_skip, hrest,
        List.drop_append_of_le_length (Nat.le_of_lt hlength)]
    obtain ⟨count, hcount, hothers⟩ := exists_stmts_fail (hflat.skip hmore) hrestMore h
    have hskip := Cursor.skip_add (place + 1) count start'
    rw [← hskip] at hothers
    refine ⟨place + 1 + count, ?_, stmts_fail_of_others hclose' hne' (hsame hlength) hothers⟩
    rw [Cursor.rest_skip, List.length_drop] at hcount
    omega
  · rw [items_of_fail standard_stopsAtEnd hflat.ne_eof hstmt] at h
    cases h
    obtain ⟨place, rfl, hsame⟩ := fail_of_fail hrest hstmt
    have hreach := add_reach_le hflat.closed hflat.opens hstmt
    have hpos := diagnostic.reach_pos
    exact ⟨place, by omega, stmts_fail_of_first hclose' hne' (hsame hreach)⟩
termination_by start.remaining

/-! ## Recovery inside of braces -/

/-- The tokens `inside` and `close` stand behind `ts`, where some braces are open, and
`close` is the first token behind which none is. -/
structure Closes (ts inside : List Token) (close : Token) : Prop where
  kind_eq : close.kind = .closeCurly
  depth_eq : braceDepth 0 (ts ++ (inside ++ [close])) = 0
  depth_pos : ∀ us vs, inside = us ++ vs → 0 < braceDepth 0 (ts ++ us)

/-- Where braces are open that are closed later, there is a token that closes the
outermost of them. -/
theorem exists_closes (hpos : 0 < braceDepth 0 ts) (hzero : braceDepth 0 (ts ++ us) = 0) :
    ∃ inside close behind, us = inside ++ close :: behind ∧ Closes ts inside close := by
  induction us generalizing ts with
  | nil =>
    rw [List.append_nil] at hzero
    omega
  | cons token us ih =>
    by_cases hdepth : braceDepth 0 (ts ++ [token]) = 0
    · refine ⟨[], token, us, rfl, ?_, hdepth, ?_⟩
      · -- Nothing but a closing brace lowers the depth.
        apply Decidable.byContradiction
        intro hclose
        rw [braceDepth_concat] at hdepth
        by_cases hopen : token.kind = .openCurly
        · rw [hopen] at hdepth
          cases hdepth
        · rw [depthAfter_of_ne hopen hclose] at hdepth
          omega
      · intro us vs heq
        obtain ⟨rfl, rfl⟩ := List.append_eq_nil_iff.1 heq.symm
        rwa [List.append_nil]
    · rw [List.append_cons] at hzero
      obtain ⟨inside, close, behind, rfl, hcloses⟩ := ih (Nat.pos_of_ne_zero hdepth) hzero
      refine ⟨token :: inside, close, behind, rfl, hcloses.kind_eq, ?_, ?_⟩
      · have hclosed := hcloses.depth_eq
        rwa [← List.append_cons] at hclosed
      · intro us vs heq
        cases us with
        | nil => rwa [List.append_nil]
        | cons first us =>
          cases heq
          have hdeep := hcloses.depth_pos us vs rfl
          rwa [← List.append_cons] at hdeep

/-- Tokens without braces that are inserted do not change what closes. -/
theorem Closes.insert (h : Closes ts inside close) (hus : Braceless us) :
    Closes ts (us ++ inside) close := by
  have hskip : ∀ vs, braceDepth 0 (ts ++ (us ++ vs)) = braceDepth 0 (ts ++ vs) := fun vs => by
    simp only [braceDepth_append, hus.braceDepth_eq]
  refine ⟨h.kind_eq, ?_, fun vs ws heq => ?_⟩
  · rw [List.append_assoc, hskip]
    exact h.depth_eq
  · rcases List.append_eq_append_iff.1 heq with ⟨as, rfl, hinside⟩ | ⟨bs, rfl, _⟩
    · rw [hskip]
      exact h.depth_pos as ws hinside
    · have hvs : Braceless vs := fun token hmem => hus token (List.mem_append_left bs hmem)
      have hopen := h.depth_pos [] inside rfl
      rw [List.append_nil] at hopen
      rwa [braceDepth_append, hvs.braceDepth_eq]

/-- Recovery passes all places inside of braces. -/
theorem synchronize_skip_eq {place stop : Nat} (hle : place ≤ stop)
    (hinside : ∀ i, place ≤ i → i < stop →
      (start.skip i).current.kind ≠ .eof ∧ 0 < (start.skip i).depth) :
    (start.skip place).synchronize 0 = (start.skip stop).synchronize 0 := by
  induction hle with
  | refl => rfl
  | @step stop hle ih =>
    obtain ⟨hne, hdepth⟩ := hinside stop hle (Nat.lt_succ_self stop)
    rw [ih fun i hplace hlt => hinside i hplace (Nat.lt_succ_of_lt hlt)]
    exact Cursor.synchronize_advance hne (fun _ => hdepth) fun _ => hdepth

theorem depth_skip {count : Nat} (hopens : Opens 0 start) (hlt : count < start.rest.length) :
    (start.skip count).depth = braceDepth 0 (start.rest.take (count + 1)) :=
  depth_of_reads (Cursor.reads_skip hlt) hopens

section Closing

variable (hopens : Opens 0 start) (hrest : start.rest = ts ++ (inside ++ close :: behind))
  (hcloses : Closes ts inside close)
include hopens hrest hcloses

/-- No brace is open on the token that closes. -/
theorem closes_depth_eq : (start.skip (ts.length + inside.length)).depth = 0 := by
  have htake : start.rest.take (ts.length + (inside.length + 1)) = ts ++ (inside ++ [close]) := by
    rw [hrest, List.take_length_add_append, List.take_length_add_append]
    rfl
  rw [depth_skip hopens (by simp [hrest]), Nat.add_assoc, htake]
  exact hcloses.depth_eq

/-- In front of the token that closes there is always a brace open. -/
theorem closes_depth_pos {place : Nat} (hlower : ts.length ≤ place)
    (hupper : place < ts.length + inside.length) : 0 < (start.skip place).depth := by
  obtain ⟨count, rfl⟩ := Nat.exists_eq_add_of_le hlower
  have htake : start.rest.take (ts.length + (count + 1)) = ts ++ inside.take (count + 1) := by
    rw [hrest, List.take_length_add_append, List.take_append_of_le_length (by omega)]
  rw [depth_skip hopens (by simp [hrest]; omega), Nat.add_assoc, htake]
  exact hcloses.depth_pos _ _ (List.take_append_drop (count + 1) inside).symm

/-- Recovery from anywhere inside goes on up to the token that closes. -/
theorem synchronize_of_closes {place : Nat} (hlower : ts.length ≤ place)
    (hupper : place ≤ ts.length + inside.length) :
    (start.skip place).synchronize 0 =
      (start.skip (ts.length + inside.length)).skipOptional .semicolon := by
  have hlength : start.rest.length = ts.length + inside.length + (behind.length + 1) := by
    simp [hrest, Nat.add_assoc]
  rw [synchronize_skip_eq hupper fun i hplace hlt => ⟨Cursor.current_skip_ne_eof (by omega),
    closes_depth_pos hopens hrest hcloses (Nat.le_trans hlower hplace) hlt⟩]
  apply Cursor.synchronize_of_closeCurly
  · rw [Cursor.current_skip, hrest, ← List.append_assoc, ← List.length_append, List.drop_left]
    exact hcloses.kind_eq
  · exact Nat.le_of_eq (closes_depth_eq hopens hrest hcloses)

end Closing

/-! ## What is read behind -/

/-- The tokens without a semicolon in front. -/
def withoutSemicolon : List Token → List Token
  | [] => []
  | token :: ts => if token.kind = .semicolon then ts else token :: ts

theorem exists_append_withoutSemicolon (ts : List Token) :
    ∃ us, ts = us ++ withoutSemicolon ts ∧ ∀ token ∈ us, token.kind ≠ .eof := by
  cases ts with
  | nil => exact ⟨[], rfl, by simp⟩
  | cons token ts =>
    by_cases hkind : token.kind = .semicolon
    · exact ⟨[token], by simp [withoutSemicolon, hkind], by simp [hkind]⟩
    · exact ⟨[], by simp [withoutSemicolon, hkind], by simp⟩

theorem takeWhile_withoutSemicolon (ts : List Token) :
    (withoutSemicolon ts).takeWhile (fun token => token.kind ≠ .eof) =
      withoutSemicolon (ts.takeWhile fun token => token.kind ≠ .eof) := by
  cases ts with
  | nil => rfl
  | cons token ts =>
    by_cases hkind : token.kind = .semicolon
    · simp [withoutSemicolon, hkind]
    · by_cases heof : token.kind = .eof
      · simp [withoutSemicolon, heof]
      · simp [withoutSemicolon, hkind, heof]

theorem rest_skipOptional_semicolon (cursor : Cursor σ) :
    (cursor.skipOptional .semicolon).advance.rest = withoutSemicolon cursor.advance.rest := by
  by_cases heof : cursor.peek.kind = .eof
  · have hnil : cursor.advance.rest = [] := Cursor.rest_of_eof heof
    rw [Cursor.skipOptional, if_neg (by rw [heof]; decide), hnil]
    rfl
  · have hcons : cursor.advance.rest = cursor.peek :: cursor.advance.advance.rest :=
      Cursor.rest_of_ne_eof heof
    rw [hcons, withoutSemicolon, Cursor.skipOptional]
    split
    · rfl
    · exact hcons

theorem last_skipOptional (kind : TokenKind) (cursor : Cursor σ) :
    (cursor.skipOptional kind).last = cursor.last := by
  unfold Cursor.skipOptional
  split
  · exact Cursor.last_advance cursor
  · rfl

/-- A statement that is given up inside of braces costs what stands up to the token that
closes the outermost one. -/
theorem exists_items_of_closes {place : Nat} (hopens : Opens 0 start)
    (hrest : start.rest = ts ++ (inside ++ close :: behind)) (hcloses : Closes ts inside close)
    (hfail : (reader standard).stmt start = .fail diagnostic (start.skip place))
    (hlower : ts.length ≤ place) (hupper : place ≤ ts.length + inside.length) :
    ∃ next : Cursor σ, (items standard start).1 = .error diagnostic :: (items standard next).1 ∧
      next.rest = withoutSemicolon behind ∧ next.last = start.last ∧ Opens 0 next := by
  have hne : start.current.kind ≠ .eof := mt Cursor.rest_of_eof (by simp [hrest])
  have hitems := items_of_fail standard_stopsAtEnd hne hfail
  rw [outerDepth_of_opens hopens, synchronize_of_closes hopens hrest hcloses hlower hupper]
    at hitems
  refine ⟨_, congrArg Prod.fst hitems, ?_, ?_, ?_⟩
  · rw [rest_skipOptional_semicolon, Cursor.rest_advance, Cursor.rest_skip, hrest,
      ← List.append_assoc, ← List.length_append, List.drop_left]
    rfl
  · rw [Cursor.last_advance, last_skipOptional, Cursor.last_skip]
  · apply opens_advance
    rw [depth_skipOptional_semicolon]
    exact closes_depth_eq hopens hrest hcloses

/-! ## The insertion -/

/-- The only statement of a source has all of its tokens, and leaves no brace open. -/
theorem exists_stmt_of_single {statement : Stmt} (hopens : Opens 0 start)
    (h : (items standard start).1 = [.ok statement]) :
    ∃ moved, (reader standard).stmt start = .ok statement moved ∧ moved.advance.rest = [] ∧
      braceDepth 0 start.rest = 0 := by
  have hne : start.current.kind ≠ .eof := fun heof => by
    rw [items_of_eof heof] at h
    cases h
  obtain ⟨ts, moved, hstmt, hreads, _, hothers⟩ := items_eq_ok_cons hne h
  have hnil : moved.advance.rest = [] := Cursor.rest_of_eof (eof_of_items_eq_nil hothers)
  refine ⟨moved, hstmt, hnil, ?_⟩
  rw [hreads.rest_eq, hnil, List.append_nil, ← depth_of_reads hreads hopens,
    (ends_of_stmt_ok hopens hstmt).depth_eq]

/-- What is inserted at the beginning of a block, and is given up there, costs the only
statement of the source. -/
theorem exists_items_of_insert {start : Cursor σ} {start' : Cursor τ}
    {before inserted after : List Token} {brace : Token} {statement : Stmt} {count : Nat}
    (hopens : Opens 0 start) (hopens' : Opens 0 start')
    (hrest : start.rest = (before ++ [brace]) ++ after)
    (hrest' : start'.rest = (before ++ [brace]) ++ (inserted ++ after))
    (hbrace : brace.kind = .openCurly) (hinserted : Braceless inserted)
    (hread : (items standard start).1 = [.ok statement]) (hcount : count ≤ inserted.length)
    (hbroken : (reader standard).stmts (start'.skip (before.length + 1)) =
      .fail diagnostic (start'.skip (before.length + 1 + count))) :
    ∃ (inside : List Token) (close : Token) (behind : List Token) (next : Cursor τ),
      after = inside ++ close :: behind ∧ Closes (before ++ [brace]) inside close ∧
      (items standard start').1 = .error diagnostic :: (items standard next).1 ∧
      next.rest = withoutSemicolon behind ∧ next.last = start'.last ∧ Opens 0 next := by
  obtain ⟨moved, hstmt, hnil, hdepth⟩ := exists_stmt_of_single hopens hread
  have hlength : (before ++ [brace]).length = before.length + 1 := List.length_append
  let fork : Fork σ τ :=
    { start, start', brace := before.length, diagnostic
      broken := start'.skip (before.length + 1 + count)
      current_eq := fun place hle =>
        current_skip_eq_of_lt hrest hrest' (by rw [hlength]; exact Nat.lt_succ_of_le hle)
      kind_eq := by
        rw [Cursor.current_skip, hrest, List.append_assoc, List.drop_left]
        exact hbrace
      stmts_eq := hbroken }
  have hfail : (reader standard).stmt start' =
      .fail diagnostic (start'.skip (before.length + 1 + count)) := by
    refine fork.stmt_fail hstmt fun place hlt heq => ?_
    rw [heq] at hnil
    have hdrop : (start.skip (place + 1)).rest = [] := hnil
    rw [Cursor.rest_skip, List.drop_eq_nil_iff, hrest, List.length_append, hlength] at hdrop
    have hplace : place < before.length := hlt
    omega
  have hpos : 0 < braceDepth 0 (before ++ [brace]) := by
    rw [braceDepth_concat, hbrace]
    exact Nat.succ_pos _
  rw [hrest] at hdepth
  obtain ⟨inside, close, behind, rfl, hcloses⟩ := exists_closes hpos hdepth
  rw [← List.append_assoc inserted] at hrest'
  obtain ⟨next, hitems, hnext, hlast, hopensNext⟩ := exists_items_of_closes hopens' hrest'
    (hcloses.insert hinserted) hfail (by omega) (by rw [hlength, List.length_append]; omega)
  exact ⟨inside, close, behind, next, rfl, hcloses, hitems, hnext, hlast, hopensNext⟩

/-! ## Lists of tokens -/

/-- What stands in front of the first end token is a part of all tokens. -/
theorem exists_append_of_takeWhile
    (h : ts.takeWhile (fun token => token.kind ≠ .eof) = us ++ vs) :
    ∃ ws, ts = us ++ ws ∧ ws.takeWhile (fun token => token.kind ≠ .eof) = vs ∧
      ∀ token ∈ us, token.kind ≠ .eof := by
  have hkinds : ∀ token ∈ us, token.kind ≠ .eof := by
    intro token hmem
    have hmem' : token ∈ ts.takeWhile fun token => token.kind ≠ .eof := by
      rw [h]
      exact List.mem_append_left vs hmem
    simpa using List.all_eq_true.1 List.all_takeWhile token hmem'
  have hts : ts = us ++ (vs ++ ts.dropWhile fun token => token.kind ≠ .eof) := by
    rw [← List.append_assoc, ← h, List.takeWhile_append_dropWhile]
  refine ⟨_, hts, ?_, hkinds⟩
  rw [hts, takeWhile_append hkinds] at h
  exact List.append_cancel_left h

/-- The turns of a source with a single statement, when closed tokens without braces are
inserted behind one of its opening braces. -/
theorem itemsOf_insert {before inserted after : List Token} {brace : Token} {statement : Stmt}
    (hbefore : ∀ token ∈ before ++ [brace], token.kind ≠ .eof) (hbrace : brace.kind = .openCurly)
    (hinserted : ∀ token ∈ inserted, token.kind ≠ .eof) (hbraceless : Braceless inserted)
    (hclosed : Closed inserted)
    (hread : itemsOf ((before ++ [brace]) ++ after) = [.ok statement])
    (hbroken : firstOf (itemsOf inserted) = some diagnostic) :
    ∃ (inside : List Token) (close : Token) (behind : List Token),
      after = inside ++ close :: behind ∧ Closes (before ++ [brace]) inside close ∧
      itemsOf ((before ++ [brace]) ++ (inserted ++ after)) =
        .error diagnostic :: itemsOf (withoutSemicolon behind) := by
  have hrest := rest_start_ofList ((before ++ [brace]) ++ after)
  rw [takeWhile_append hbefore] at hrest
  have halone := rest_start_of_ne_eof hinserted
  generalize hstart' : Cursor.start (TokenBuffer.ofList
    ((before ++ [brace]) ++ (inserted ++ after))) = start'
  have hrest' := hstart' ▸ rest_start_ofList _
  have hlast' := hstart' ▸ last_start_ofList _
  have hopens' := hstart' ▸ opens_start _
  rw [takeWhile_append hbefore, takeWhile_append hinserted] at hrest'
  -- The block begins with what was inserted, so it is given up there.
  have hblock : (start'.skip (before.length + 1)).rest =
      (Cursor.start (TokenBuffer.ofList inserted)).rest ++
        after.takeWhile fun token => token.kind ≠ .eof := by
    rw [Cursor.rest_skip, hrest', halone]
    exact List.drop_left' List.length_append
  have hflat : Flat (Cursor.start (TokenBuffer.ofList inserted)) :=
    ⟨by rwa [halone], by rwa [halone], opens_start _⟩
  obtain ⟨count, hcount, hstmts⟩ := exists_stmts_fail hflat hblock hbroken
  rw [halone] at hcount
  rw [← Cursor.skip_add] at hstmts
  obtain ⟨inside, close, behind, next, htake, hcloses, hitems, hnext, hlast, hopensNext⟩ :=
    exists_items_of_insert (opens_start _) hopens' hrest hrest' hbrace hbraceless hread
      (Nat.le_of_lt hcount) hstmts
  rw [List.append_cons] at htake
  obtain ⟨all, rfl, hall, hkinds⟩ := exists_append_of_takeWhile htake
  obtain ⟨us, hus, hne⟩ := exists_append_withoutSemicolon all
  have hpassed : ∀ token ∈ (before ++ [brace]) ++ (inserted ++ ((inside ++ [close]) ++ us)),
      token.kind ≠ .eof :=
    List.forall_mem_append.2 ⟨hbefore, List.forall_mem_append.2
      ⟨hinserted, List.forall_mem_append.2 ⟨hkinds, hne⟩⟩⟩
  refine ⟨inside, close, all, (List.append_cons inside close all).symm, hcloses, ?_⟩
  rw [itemsOf, hstart', hitems]
  refine congrArg _ (items_eq_itemsOf hpassed ?_ ?_ hopensNext)
  · rw [hnext, takeWhile_withoutSemicolon, hall]
  · rw [hlast, hlast']
    simp only [List.append_assoc, ← hus]

/-- A broken statement that is inserted at the beginning of a block costs what stands up to
the brace that closes the outermost block around it, with a semicolon behind that brace.
For all of this there is one diagnostic, the first one of the inserted statement by itself.
What comes then is read as if it stood alone. -/
theorem parseTokens_insert {before inserted after : List Token} {brace semicolon : Token}
    {statement : Stmt} (hread : parseTokens (before ++ brace :: after) = ⟨⟨[statement]⟩, .empty⟩)
    (hbefore : ∀ token ∈ before, token.kind ≠ .eof) (hbrace : brace.kind = .openCurly)
    (hinserted : ∀ token ∈ inserted, token.kind ≠ .eof) (hbraceless : Braceless inserted)
    (hsemicolon : semicolon.kind = .semicolon)
    (hbroken : (parseTokens (inserted ++ [semicolon])).diagnostics.entries.head? =
      some diagnostic) :
    ∃ (inside : List Token) (close : Token) (behind : List Token),
      after = inside ++ close :: behind ∧ Closes (before ++ [brace]) inside close ∧
      parseTokens (before ++ brace :: (inserted ++ semicolon :: after)) =
        ⟨(parseTokens (withoutSemicolon behind)).program,
          ⟨diagnostic :: (parseTokens (withoutSemicolon behind)).diagnostics.entries⟩⟩ ∧
      (withoutSemicolon behind = [] →
        parseTokens (before ++ brace :: (inserted ++ semicolon :: after)) =
          ⟨⟨[]⟩, ⟨[diagnostic]⟩⟩) := by
  have hlead : ∀ token ∈ before ++ [brace], token.kind ≠ .eof := by
    simpa [hbrace, or_imp, forall_and] using hbefore
  have hkinds : ∀ token ∈ inserted ++ [semicolon], token.kind ≠ .eof := by
    simpa [hsemicolon, or_imp, forall_and] using hinserted
  have hbraceless' : Braceless (inserted ++ [semicolon]) := by
    simpa [Braceless, hsemicolon, or_imp, forall_and] using hbraceless
  have hclosed : Closed (inserted ++ [semicolon]) :=
    ⟨.intro hsemicolon, hbraceless'.braceDepth_eq 0⟩
  have hsingle := parseTokens_eq_iff_itemsOf.1 hread
  rw [List.append_cons] at hsingle
  obtain ⟨inside, close, behind, hafter, hcloses, hitems⟩ :=
    itemsOf_insert hlead hbrace hkinds hbraceless' hclosed hsingle hbroken
  have hwhole : before ++ brace :: (inserted ++ semicolon :: after) =
      (before ++ [brace]) ++ ((inserted ++ [semicolon]) ++ after) := by simp
  have hparse : parseTokens (before ++ brace :: (inserted ++ semicolon :: after)) =
      ⟨(parseTokens (withoutSemicolon behind)).program,
        ⟨diagnostic :: (parseTokens (withoutSemicolon behind)).diagnostics.entries⟩⟩ := by
    rw [hwhole, parseTokens_eq, hitems]
    rfl
  refine ⟨inside, close, behind, hafter, hcloses, hparse, fun hnil => ?_⟩
  rw [hparse, hnil]
  rfl

/-- A binding without a name, at the beginning of the only block of a program. -/
theorem parseTokens_insert_binding :
    let place : Span := ⟨⟨0, "block"⟩, ⟨0, "block"⟩⟩
    let name : Token := ⟨.identifier, "a", place⟩
    let word : Token := ⟨.ifWord, "if", place⟩
    let brace : Token := ⟨.openCurly, "\x7b", place⟩
    let close : Token := ⟨.closeCurly, "\x7d", place⟩
    let semicolon : Token := ⟨.semicolon, ";", place⟩
    let before : List Token := [word, name]
    let after : List Token := [close, semicolon]
    let inserted : List Token := [⟨.letWord, "let", place⟩]
    let statement : Stmt := .expr word (.cond word (.ident ⟨name, "a"⟩) ⟨brace, []⟩ none)
    let diagnostic : Diagnostic :=
      ⟨.expectedToken "let statement" .identifier .semicolon ";", ⟨0, "block"⟩⟩
    parseTokens (before ++ brace :: after) = ⟨⟨[statement]⟩, .empty⟩ ∧
      (∀ token ∈ before, token.kind ≠ .eof) ∧ brace.kind = .openCurly ∧
      (∀ token ∈ inserted, token.kind ≠ .eof) ∧ Braceless inserted ∧
      semicolon.kind = .semicolon ∧
      (parseTokens (inserted ++ [semicolon])).diagnostics.entries.head? = some diagnostic ∧
      ∃ (inside : List Token) (close : Token) (behind : List Token),
        after = inside ++ close :: behind ∧ Closes (before ++ [brace]) inside close ∧
        parseTokens (before ++ brace :: (inserted ++ semicolon :: after)) =
          ⟨(parseTokens (withoutSemicolon behind)).program,
            ⟨diagnostic :: (parseTokens (withoutSemicolon behind)).diagnostics.entries⟩⟩ ∧
        (withoutSemicolon behind = [] →
          parseTokens (before ++ brace :: (inserted ++ semicolon :: after)) =
            ⟨⟨[]⟩, ⟨[diagnostic]⟩⟩) := by
  intro place name word brace close semicolon before after inserted statement diagnostic
  have hread : parseTokens (before ++ brace :: after) = ⟨⟨[statement]⟩, .empty⟩ := by rfl
  have hbefore : ∀ token ∈ before, token.kind ≠ .eof := by decide
  have hinserted : ∀ token ∈ inserted, token.kind ≠ .eof := by decide
  have hbraceless : Braceless inserted := by
    unfold Braceless
    decide
  have hbroken : (parseTokens (inserted ++ [semicolon])).diagnostics.entries.head? =
      some diagnostic := by decide +kernel
  exact ⟨hread, hbefore, rfl, hinserted, hbraceless, rfl, hbroken,
    parseTokens_insert hread hbefore rfl hinserted hbraceless rfl hbroken⟩

/-- Where the statement goes on behind the brace that closes the block, what is left of it
is read as if it stood alone, and is broken in its turn. -/
theorem parseTokens_insert_else :
    let place : Span := ⟨⟨0, "choice"⟩, ⟨0, "choice"⟩⟩
    let name : Token := ⟨.identifier, "a", place⟩
    let word : Token := ⟨.ifWord, "if", place⟩
    let other : Token := ⟨.elseWord, "else", place⟩
    let brace : Token := ⟨.openCurly, "\x7b", place⟩
    let close : Token := ⟨.closeCurly, "\x7d", place⟩
    let semicolon : Token := ⟨.semicolon, ";", place⟩
    let before : List Token := [word, name]
    let after : List Token := [close, other, brace, close, semicolon]
    let inserted : List Token := [⟨.letWord, "let", place⟩]
    let statement : Stmt :=
      .expr word (.cond word (.ident ⟨name, "a"⟩) ⟨brace, []⟩ (some ⟨brace, []⟩))
    let diagnostic : Diagnostic :=
      ⟨.expectedToken "let statement" .identifier .semicolon ";", ⟨0, "choice"⟩⟩
    parseTokens (before ++ brace :: after) = ⟨⟨[statement]⟩, .empty⟩ ∧
      (before ++ brace :: after).getLast?.map Token.kind = some .semicolon ∧
      brace.kind = .openCurly ∧ (∀ token ∈ inserted, Plain token.kind) ∧
      (parseTokens (inserted ++ [semicolon])).diagnostics.entries = [diagnostic] ∧
      parseTokens (before ++ brace :: (inserted ++ semicolon :: after)) =
        ⟨⟨[]⟩, ⟨[diagnostic, ⟨.noExpression .elseWord "else", ⟨0, "choice"⟩⟩]⟩⟩ := by
  decide +kernel

end BraceLang.Recovery
