import BraceLang.Proofs.Recovery.Boundary
import BraceLang.Proofs.Syntax.Program

/-!
# Segments of a source

Each turn takes some tokens: they are its *segment*.  The segments follow one
another without a gap, and each begins where no brace is open
(`parseTokens_segments`).

What is known of a segment depends on what its turn gave (`Segment.Accounted`).
The tokens of a statement derive it.  The tokens of a broken statement hold the
token that its diagnostic blames, unless that is the next one, and they end as
`Broken` says: with the first semicolon outside of braces, with a closing brace
that leaves none open, or with the source.
-/

namespace BraceLang.Recovery

open Grammar Syntax

variable {σ : Type} [TokenSource σ] {base : Nat} {start cursor moved : Cursor σ}
  {ts us : List Token}

/-! ## Braces -/

/-- What a token adds to the number of open braces. -/
def braceWeight (kind : TokenKind) : Int :=
  if kind = .openCurly then 1 else if kind = .closeCurly then -1 else 0

/-- The number of braces that are open after the tokens, if `depth` are open before
them.  It is never negative. -/
def braceDepth (depth : Nat) (ts : List Token) : Nat :=
  ts.foldl (fun depth token => (depth + braceWeight token.kind).toNat) depth

/-- A cursor counts one token as `braceDepth` does. -/
theorem toNat_add_braceWeight (depth : Nat) (kind : TokenKind) :
    (depth + braceWeight kind).toNat = depthAfter depth kind := by
  by_cases hopen : kind = .openCurly
  · subst hopen
    rfl
  · by_cases hclose : kind = .closeCurly
    · subst hclose
      exact Int.toNat_sub depth 1
    · rw [depthAfter_of_ne hopen hclose, braceWeight, if_neg hopen, if_neg hclose, Int.add_zero]
      rfl

theorem braceDepth_cons (depth : Nat) (token : Token) (ts : List Token) :
    braceDepth depth (token :: ts) = braceDepth (depthAfter depth token.kind) ts := by
  rw [← toNat_add_braceWeight]
  rfl

theorem braceDepth_append (depth : Nat) (ts us : List Token) :
    braceDepth depth (ts ++ us) = braceDepth (braceDepth depth ts) us :=
  List.foldl_append

theorem braceDepth_concat (depth : Nat) (ts : List Token) (token : Token) :
    braceDepth depth (ts ++ [token]) = depthAfter (braceDepth depth ts) token.kind := by
  rw [braceDepth_append, braceDepth_cons]
  rfl

/-- A cursor counts the braces on its way. -/
theorem opens_of_passes {P : Cursor σ → Prop} (h : start.Passes P ts cursor)
    (hopens : Opens base start) : Opens (braceDepth base ts) cursor := by
  induction h generalizing base with
  | here => exact hopens
  | @on start cursor ts _ _ ih =>
    have hnext : braceDepth base (start.current :: ts) = braceDepth start.depth ts := by
      rw [braceDepth_cons, hopens]
    rw [hnext]
    exact ih (opens_advance rfl)

theorem depth_of_reads (h : start.Reads ts cursor) (hopens : Opens base start) :
    cursor.depth = braceDepth base ts := by
  obtain ⟨us, token, rfl⟩ : ∃ us token, ts = us ++ [token] :=
    ⟨_, _, (List.dropLast_concat_getLast h.ne_nil).symm⟩
  obtain ⟨hpasses, hcurrent⟩ := h.init
  rw [braceDepth_concat, ← hcurrent]
  exact opens_of_passes hpasses hopens

theorem outerDepth_of_opens (h : Opens 0 cursor) : cursor.outerDepth = 0 := by
  unfold Cursor.outerDepth
  split
  · rename_i hkind
    rw [h, hkind]
    rfl
  · rename_i hkind
    rw [h]
    unfold depthAfter
    split
    · rename_i hopen
      exact absurd hopen hkind
    · rfl
    · rfl

theorem opens_start (source : σ) : Opens 0 (Cursor.start source) := rfl

/-! ## Broken statements -/

/-- No semicolon among the tokens stands outside of braces. -/
def Unended (ts : List Token) : Prop :=
  ∀ us token vs, ts = us ++ token :: vs → token.kind = .semicolon → 0 < braceDepth 0 us

/-- How the tokens of a broken statement end, in front of a token of the kind
`next`. -/
inductive Broken (next : TokenKind) : List Token → Prop where
  /-- With the first semicolon outside of braces.  There may be a closing brace in
  front of it that leaves no brace open. -/
  | semicolon {ts : List Token} {token : Token} (h : Unended ts)
      (hkind : token.kind = .semicolon) (hdepth : braceDepth 0 ts = 0) :
      Broken next (ts ++ [token])
  /-- With a closing brace that leaves no brace open and has no semicolon behind
  it. -/
  | closeCurly {ts : List Token} {token : Token} (h : Unended ts)
      (hkind : token.kind = .closeCurly) (hdepth : braceDepth 0 (ts ++ [token]) = 0)
      (hnext : next ≠ .semicolon) : Broken next (ts ++ [token])
  /-- With the source. -/
  | source {ts : List Token} (h : Unended ts) (hnext : next = .eof) : Broken next ts

theorem unended_of_passes (h : start.Passes (Inside 0) ts cursor) (hopens : Opens 0 start) :
    Unended ts := by
  rintro us token vs rfl hkind
  obtain ⟨place, hpasses, rfl, hinside⟩ := h.at
  have hdepth : place.depth = braceDepth 0 us := by
    have hplace := opens_of_passes hpasses hopens
    rw [Opens, hkind] at hplace
    exact hplace
  rw [← hdepth]
  exact hinside.lt_depth hkind

/-- The place where recovery stops. -/
inductive Stops (base : Nat) (cursor : Cursor σ) : Prop where
  | eof (heof : cursor.current.kind = .eof)
  | semicolon (hkind : cursor.current.kind = .semicolon) (hdepth : cursor.depth ≤ base)
  | closeCurly (hkind : cursor.current.kind = .closeCurly) (hdepth : cursor.depth ≤ base)
      (hpeek : cursor.peek.kind ≠ .semicolon)

/-- Recovery goes on inside the broken statement, up to its end. -/
theorem stays_synchronize (cursor : Cursor σ) :
    Stays 0 cursor (cursor.synchronize 0) ∧ Stops 0 (cursor.synchronize 0) := by
  obtain ⟨ts, stop, hpasses, hboundary, hstop⟩ := exists_boundary 0 cursor
  have hstays := stays_of_passes hpasses (.inl (Nat.zero_le _))
  rw [hstop]
  rcases hboundary with heof | ⟨hkind | hkind, hdepth⟩
  · rw [if_neg (by rw [heof]; decide)]
    exact ⟨hstays, .eof heof⟩
  · rw [if_neg (by rw [hkind]; decide)]
    exact ⟨hstays, .semicolon hkind hdepth⟩
  · have hdepth' := Nat.le_trans (Nat.le_of_eq (depth_skipOptional_semicolon stop)) hdepth
    rw [if_pos hkind]
    by_cases hpeek : stop.peek.kind = .semicolon
    · have hinside : Inside 0 stop := by
        refine ⟨TokenKind.ne_eof_of_eq hkind (by decide), Nat.zero_le _, fun hsemicolon => ?_⟩
        rw [hkind] at hsemicolon
        cases hsemicolon
      rw [Cursor.skipOptional, if_pos hpeek] at hdepth' ⊢
      exact ⟨hstays.advance hinside, .semicolon hpeek hdepth'⟩
    · rw [Cursor.skipOptional, if_neg hpeek]
      exact ⟨hstays, .closeCurly hkind hdepth hpeek⟩

/-! ## Segments -/

/-- The tokens that a turn takes, and what it gives. -/
structure Segment where
  tokens : List Token
  item : Item

/-- What is known of a segment in front of the token `next`. -/
def Segment.Accounted (segment : Segment) (next : Token) : Prop :=
  match segment.item with
  | .ok statement => Derives (.stmt next.kind) segment.tokens statement
  | .error diagnostic =>
    (∃ token ∈ segment.tokens ++ [next], Blames diagnostic token) ∧
      Broken next.kind segment.tokens

/-- The segment of a turn. -/
structure Taken (cursor : Cursor σ) (segment : Segment) (next : Cursor σ) : Prop where
  ne_nil : segment.tokens ≠ []
  passes : cursor.Passes (fun place => place.current.kind ≠ .eof) segment.tokens next
  items : (items standard cursor).1 = segment.item :: (items standard next).1
  depth_eq : next.current.kind ≠ .eof → braceDepth 0 segment.tokens = 0
  accounted : segment.Accounted next.current

theorem ends_of_stmt_ok {statement : Stmt} (hopens : Opens 0 cursor)
    (h : (reader standard).stmt cursor = .ok statement moved) : Ends 0 cursor moved := by
  have hdisciplined := reader_disciplined.stmt 0 cursor cursor ⟨.here _ _, hopens⟩
  rw [h] at hdisciplined
  exact hdisciplined

theorem breaks_of_stmt_fail {diagnostic : Diagnostic} (hopens : Opens base cursor)
    (h : (reader standard).stmt cursor = .fail diagnostic moved) :
    Breaks base cursor diagnostic moved := by
  have hdisciplined := reader_disciplined.stmt base cursor cursor ⟨.here _ _, hopens⟩
  rw [h] at hdisciplined
  exact hdisciplined

/-- A turn that gives a statement. -/
theorem taken_of_ok {statement : Stmt} (hopens : Opens 0 cursor) (hne : cursor.current.kind ≠ .eof)
    (h : (reader standard).stmt cursor = .ok statement moved) (hreads : cursor.Reads ts moved)
    (hderives : Derives (.stmt moved.peek.kind) ts statement) :
    Taken cursor ⟨ts, .ok statement⟩ moved.advance := by
  refine ⟨hreads.ne_nil, hreads.passes, ?_, fun _ => ?_, hderives⟩
  · rw [items_of_ok standard_stopsAtEnd hne h]
  · rw [← depth_of_reads hreads hopens, (ends_of_stmt_ok hopens h).depth_eq]

/-- The token that a diagnostic blames is passed by recovery, or stands at its
end. -/
theorem exists_blamed {diagnostic : Diagnostic} {P : Cursor σ → Prop}
    (hbreaks : Breaks base start diagnostic moved) (hrest : moved.Passes P ts cursor) :
    ∃ token ∈ ts ++ [cursor.current, cursor.peek], Blames diagnostic token := by
  rcases hbreaks.blames with ⟨hcurrent, _⟩ | ⟨_, hpeek⟩
  · refine ⟨moved.current, ?_, hcurrent⟩
    have hmem := List.mem_append_left [cursor.peek] hrest.current_mem
    rwa [List.append_assoc] at hmem
  · exact ⟨moved.peek, hrest.peek_mem, hpeek⟩

/-- A turn that gives a diagnostic. -/
theorem taken_of_fail {diagnostic : Diagnostic} (hopens : Opens 0 cursor)
    (hne : cursor.current.kind ≠ .eof)
    (h : (reader standard).stmt cursor = .fail diagnostic moved) :
    ∃ ts, Taken cursor ⟨ts, .error diagnostic⟩ (moved.synchronize 0).advance := by
  have hbreaks := breaks_of_stmt_fail hopens h
  have hitems := items_of_fail standard_stopsAtEnd hne h
  rw [outerDepth_of_opens hopens] at hitems
  obtain ⟨⟨us, hus⟩, hstops⟩ := stays_synchronize moved
  generalize moved.synchronize 0 = stop at hitems hus hstops
  obtain ⟨ts, hts⟩ := hbreaks.stays
  have hway : cursor.Passes (Inside 0) (ts ++ us) stop := hts.trans hus
  have hpasses := hway.mono fun _ hinside => hinside.ne_eof
  have hended := unended_of_passes hway hopens
  have hstop := opens_of_passes hway hopens
  obtain ⟨token, hmem, hblames⟩ := exists_blamed hbreaks hus
  have hmem : token ∈ ts ++ us ++ [stop.current, stop.peek] := by
    rw [List.append_assoc]
    exact List.mem_append_right ts hmem
  -- Where recovery stops on a token, this is the last one of the segment.
  have htaken : Broken stop.peek.kind (ts ++ us ++ [stop.current]) → stop.current.kind ≠ .eof →
      stop.depth ≤ 0 →
      Taken cursor ⟨ts ++ us ++ [stop.current], .error diagnostic⟩ stop.advance := by
    intro hbroken hstopNe hdepth
    refine ⟨by simp, hpasses.snoc hstopNe, by rw [hitems], fun _ => ?_, ⟨token, ?_, hblames⟩,
      hbroken⟩
    · rw [braceDepth_concat, ← hstop]
      exact Nat.le_zero.1 hdepth
    · rwa [List.append_assoc]
  cases hstops with
  | eof heof =>
    have hnil : ts ++ us ≠ [] := fun hnil => by
      rw [hnil] at hway
      cases hway
      exact hne heof
    rw [Cursor.advance_of_eof heof] at hitems ⊢
    refine ⟨ts ++ us, hnil, hpasses, by rw [hitems], fun hstopNe => absurd heof hstopNe,
      ⟨token, ?_, hblames⟩, .source hended heof⟩
    rw [stop.peek_of_eof heof] at hmem
    simpa using hmem
  | semicolon hkind hdepth =>
    have hne := TokenKind.ne_eof_of_eq hkind (by decide)
    refine ⟨_, htaken (.semicolon hended hkind ?_) hne hdepth⟩
    rw [Opens, hkind] at hstop
    exact hstop.symm.trans (Nat.le_zero.1 hdepth)
  | closeCurly hkind hdepth hpeek =>
    have hne := TokenKind.ne_eof_of_eq hkind (by decide)
    refine ⟨_, htaken (.closeCurly hended hkind ?_ hpeek) hne hdepth⟩
    rw [braceDepth_concat, ← hstop]
    exact Nat.le_zero.1 hdepth

theorem exists_taken (hopens : Opens 0 cursor) (hne : cursor.current.kind ≠ .eof) :
    ∃ segment next, Taken cursor segment next := by
  rcases stmt_ok_or_fail standard_stopsAtEnd cursor with
    ⟨statement, moved, h⟩ | ⟨diagnostic, moved, h⟩
  · obtain ⟨ts, hreads, hderives⟩ := finds_of_stmt_ok h
    exact ⟨_, _, taken_of_ok hopens hne h hreads hderives⟩
  · obtain ⟨ts, htaken⟩ := taken_of_fail hopens hne h
    exact ⟨_, _, htaken⟩

/-! ## All segments -/

/-- The token that stands behind a segment, if `after` are the segments that
follow. -/
def nextToken (after : List Segment) (last : Token) : Token :=
  (after.flatMap Segment.tokens).headD last

/-- The segments account for the tokens `ts` and the items that the turns give for
them, in front of the end token `last`. -/
structure Accounts (last : Token) (ts : List Token) (items : List Item)
    (segments : List Segment) : Prop where
  tokens_eq : segments.flatMap Segment.tokens = ts
  items_eq : segments.map Segment.item = items
  each : ∀ before segment after, segments = before ++ segment :: after →
    segment.tokens ≠ [] ∧ braceDepth 0 (before.flatMap Segment.tokens) = 0 ∧
      segment.Accounted (nextToken after last)

theorem Accounts.nil (last : Token) : Accounts last [] [] [] :=
  ⟨rfl, rfl, fun before segment after h => by simp at h⟩

/-- A segment in front of others. -/
theorem Accounts.cons {segment : Segment} {next : Cursor σ} {segments : List Segment}
    (h : Taken cursor segment next)
    (haccounts : Accounts next.last next.rest (items standard next).1 segments) :
    Accounts cursor.last cursor.rest (items standard cursor).1 (segment :: segments) := by
  have hrest : cursor.rest = segment.tokens ++ next.rest := h.passes.rest_eq fun _ => id
  have hlast : next.last = cursor.last := h.passes.last_eq
  refine ⟨?_, ?_, fun before other after heq => ?_⟩
  · rw [List.flatMap_cons, haccounts.tokens_eq, hrest]
  · rw [List.map_cons, haccounts.items_eq, h.items]
  · cases before with
    | nil =>
      cases heq
      have hnext : nextToken segments cursor.last = next.current := by
        rw [nextToken, haccounts.tokens_eq, ← hlast]
        exact Cursor.headD_rest next
      exact ⟨h.ne_nil, rfl, by rw [hnext]; exact h.accounted⟩
    | cons first before =>
      cases heq
      obtain ⟨hne, hdepth, haccounted⟩ := haccounts.each before other after rfl
      refine ⟨hne, ?_, by rw [← hlast]; exact haccounted⟩
      have hnextNe : next.current.kind ≠ .eof := fun heof => by
        have hnil := haccounts.tokens_eq
        rw [Cursor.rest_of_eof heof, List.flatMap_eq_nil_iff] at hnil
        exact hne (hnil other (by simp))
      rw [List.flatMap_cons, braceDepth_append, h.depth_eq hnextNe]
      exact hdepth

/-- Where no brace is open, the turns take all that is left, segment by segment. -/
theorem exists_accounts (cursor : Cursor σ)
    (hopens : cursor.current.kind ≠ .eof → Opens 0 cursor) :
    ∃ segments, Accounts cursor.last cursor.rest (items standard cursor).1 segments := by
  by_cases heof : cursor.current.kind = .eof
  · refine ⟨[], ?_⟩
    rw [Cursor.rest_of_eof heof, items_of_eof heof]
    exact .nil _
  · obtain ⟨segment, next, htaken⟩ := exists_taken (hopens heof) heof
    have hlt := htaken.passes.remaining_lt (fun _ => id) htaken.ne_nil
    have hnext : next.current.kind ≠ .eof → Opens 0 next := fun hne => by
      have hopensNext := opens_of_passes htaken.passes (hopens heof)
      rwa [htaken.depth_eq hne] at hopensNext
    obtain ⟨segments, haccounts⟩ := exists_accounts next hnext
    exact ⟨segment :: segments, haccounts.cons htaken⟩
termination_by cursor.remaining

/-- The tokens before the end split into segments, one for each turn.  The
statements and the diagnostics are those of the segments, in their order; each
segment begins where no brace is open, and is accounted for by itself and the
token behind it. -/
theorem parseTokens_segments (tokens : List Token) :
    ∃ segments : List Segment,
      segments.flatMap Segment.tokens = tokens.takeWhile (fun token => token.kind ≠ .eof) ∧
      segments.map Segment.item = itemsOf tokens ∧
      parseTokens tokens = ⟨⟨statementsOf (segments.map Segment.item)⟩,
        ⟨diagnosticsOf (segments.map Segment.item)⟩⟩ ∧
      ∀ before segment after, segments = before ++ segment :: after →
        segment.tokens ≠ [] ∧ braceDepth 0 (before.flatMap Segment.tokens) = 0 ∧
          segment.Accounted (nextToken after (TokenBuffer.endOf tokens)) := by
  obtain ⟨segments, haccounts⟩ := exists_accounts (Cursor.start (TokenBuffer.ofList tokens))
    fun _ => opens_start _
  refine ⟨segments, ?_, haccounts.items_eq, ?_, ?_⟩
  · rw [haccounts.tokens_eq, rest_start_ofList]
  · rw [haccounts.items_eq]
    rfl
  · rw [← last_start_ofList]
    exact haccounts.each

end BraceLang.Recovery
