import BraceLang.Parser.Cursor
import BraceLang.Token.Buffer

/-!
# Paths of a cursor

Where a cursor gets to is one matter, and which tokens lie on the way is another.

* `Cursor.rest` lists the tokens from a cursor up to the end, and `Cursor.last` is
  the end token.
* `start.Passes P ts cursor` holds of the way from `start` to `cursor`, which
  itself is not part of it: the tokens of the way are `ts`, and `P` holds of every
  place on it.
* `start.Reads ts cursor` holds if the tokens from `start` through `cursor`, both
  included, are `ts`.  A construct that is read from `start` leaves the cursor on
  its last token, so `ts` are the tokens of the construct.

Ways are put together by `Passes.trans` and `Reads.append`.
-/

namespace BraceLang

namespace Cursor

variable {σ : Type} [TokenSource σ] {start middle cursor : Cursor σ} {ts us : List Token}

/-! ## What is left -/

/-- The tokens from the current one up to, and without, the end token. -/
def rest (cursor : Cursor σ) : List Token :=
  if _h : cursor.current.kind = .eof then [] else cursor.current :: cursor.advance.rest
termination_by cursor.remaining
decreasing_by exact remaining_advance_lt ‹_›

/-- The end token. -/
def last (cursor : Cursor σ) : Token :=
  if _h : cursor.current.kind = .eof then cursor.current else cursor.advance.last
termination_by cursor.remaining
decreasing_by exact remaining_advance_lt ‹_›

theorem rest_of_eof (h : cursor.current.kind = .eof) : cursor.rest = [] := by
  rw [rest, dif_pos h]

theorem rest_of_ne_eof (h : cursor.current.kind ≠ .eof) :
    cursor.rest = cursor.current :: cursor.advance.rest := by
  rw [rest, dif_neg h]

theorem last_of_eof (h : cursor.current.kind = .eof) : cursor.last = cursor.current := by
  rw [last, dif_pos h]

theorem last_of_ne_eof (h : cursor.current.kind ≠ .eof) :
    cursor.last = cursor.advance.last := by
  rw [last, dif_neg h]

theorem last_advance (cursor : Cursor σ) : cursor.advance.last = cursor.last := by
  by_cases h : cursor.current.kind = .eof
  · rw [advance_of_eof h]
  · rw [last_of_ne_eof h]

theorem rest_eq_nil_iff : cursor.rest = [] ↔ cursor.current.kind = .eof := by
  by_cases h : cursor.current.kind = .eof
  · simp [rest_of_eof h, h]
  · simp [rest_of_ne_eof h, h]

/-- No end token is left before the end. -/
theorem kind_ne_eof_of_mem_rest {token : Token} (h : token ∈ cursor.rest) :
    token.kind ≠ .eof := by
  fun_induction rest cursor with
  | case1 cursor hend => cases h
  | case2 cursor hne ih =>
    rcases List.mem_cons.1 h with rfl | htail
    · exact hne
    · exact ih htail

theorem last_kind (cursor : Cursor σ) : cursor.last.kind = .eof := by
  fun_induction last cursor with
  | case1 cursor heof => exact heof
  | case2 cursor _ ih => exact ih

/-- The current token is the first one that is left, or the end token. -/
theorem headD_rest (cursor : Cursor σ) : cursor.rest.headD cursor.last = cursor.current := by
  by_cases heof : cursor.current.kind = .eof
  · rw [rest_of_eof heof, last_of_eof heof]
    rfl
  · rw [rest_of_ne_eof heof]
    rfl

/-! ## Places ahead -/

/-- The cursor after a number of advances. -/
def skip : Nat → Cursor σ → Cursor σ
  | 0, cursor => cursor
  | count + 1, cursor => (cursor.skip count).advance

theorem skip_succ (count : Nat) (cursor : Cursor σ) :
    cursor.skip (count + 1) = cursor.advance.skip count := by
  induction count with
  | zero => rfl
  | succ count ih => exact congrArg advance ih

theorem skip_add (count more : Nat) (cursor : Cursor σ) :
    cursor.skip (count + more) = (cursor.skip count).skip more := by
  induction more with
  | zero => rfl
  | succ more ih => exact congrArg advance ih

theorem remaining_skip_le (count : Nat) (cursor : Cursor σ) :
    (cursor.skip count).remaining ≤ cursor.remaining := by
  induction count with
  | zero => exact Nat.le_refl _
  | succ count ih =>
    have hadvance := (cursor.skip count).remaining_advance_le
    exact Nat.le_trans hadvance (Nat.le_trans (Nat.sub_le _ _) ih)

/-- Any number of advances comes nearer to the end, but none. -/
theorem remaining_skip_succ_lt (h : cursor.current.kind ≠ .eof) (count : Nat) :
    (cursor.skip (count + 1)).remaining < cursor.remaining := by
  rw [skip_succ]
  exact Nat.lt_of_le_of_lt (remaining_skip_le count cursor.advance) (remaining_advance_lt h)

theorem rest_advance (cursor : Cursor σ) : cursor.advance.rest = cursor.rest.drop 1 := by
  by_cases heof : cursor.current.kind = .eof
  · rw [advance_of_eof heof, rest_of_eof heof, List.drop_nil]
  · rw [rest_of_ne_eof heof]
    rfl

theorem rest_skip (count : Nat) (cursor : Cursor σ) :
    (cursor.skip count).rest = cursor.rest.drop count := by
  induction count with
  | zero => rfl
  | succ count ih => rw [skip, rest_advance, ih, List.drop_drop]

theorem last_skip (count : Nat) (cursor : Cursor σ) : (cursor.skip count).last = cursor.last := by
  induction count with
  | zero => rfl
  | succ count ih => rw [skip, last_advance, ih]

/-- The tokens ahead are those that are left, and then the end token. -/
theorem current_skip (count : Nat) (cursor : Cursor σ) :
    (cursor.skip count).current = (cursor.rest.drop count).headD cursor.last := by
  rw [← headD_rest, rest_skip, last_skip]

/-- A token ahead is one of those that are left, or the end token. -/
theorem current_skip_mem (count : Nat) (cursor : Cursor σ) :
    (cursor.skip count).current ∈ cursor.rest ++ [cursor.last] := by
  rw [current_skip]
  cases hdrop : cursor.rest.drop count with
  | nil => exact List.mem_append_right _ List.mem_cons_self
  | cons token tokens =>
    have hmem : token ∈ cursor.rest.drop count := hdrop ▸ List.mem_cons_self
    exact List.mem_append_left _ (List.mem_of_mem_drop hmem)

theorem mem_of_mem_skip {count : Nat} {token : Token}
    (h : token ∈ (cursor.skip count).rest ++ [(cursor.skip count).last]) :
    token ∈ cursor.rest ++ [cursor.last] := by
  rw [rest_skip, last_skip] at h
  rcases List.mem_append.1 h with hrest | hlast
  · exact List.mem_append_left _ (List.mem_of_mem_drop hrest)
  · exact List.mem_append_right _ hlast

theorem current_skip_ne_eof {count : Nat} (hlt : count < cursor.rest.length) :
    (cursor.skip count).current.kind ≠ .eof := by
  intro heof
  have hnil := rest_of_eof heof
  rw [rest_skip] at hnil
  exact absurd (List.drop_eq_nil_iff.1 hnil) (Nat.not_le.2 hlt)

/-- The token behind the current one is the next that is left, or the end token. -/
theorem peek_eq_headD {token : Token} (h : cursor.rest = token :: ts) :
    cursor.peek = ts.headD cursor.last := by
  have hcurrent := cursor.advance.headD_rest
  rw [rest_advance, h, last_advance] at hcurrent
  exact hcurrent.symm

theorem length_rest_le (cursor : Cursor σ) : cursor.rest.length ≤ cursor.remaining := by
  fun_induction rest cursor with
  | case1 cursor heof => exact Nat.zero_le _
  | case2 cursor hne ih => exact Nat.lt_of_le_of_lt ih (remaining_advance_lt hne)

/-! ## Sources -/

theorem tokens_of_eof {source : σ} (h : (TokenSource.next source).1.kind = .eof) :
    TokenSource.tokens source = [(TokenSource.next source).1] := by
  rw [TokenSource.tokens, if_pos h]

theorem tokens_of_ne_eof {source : σ} (h : (TokenSource.next source).1.kind ≠ .eof) :
    TokenSource.tokens source =
      (TokenSource.next source).1 :: TokenSource.tokens (TokenSource.next source).2 := by
  rw [TokenSource.tokens, if_neg h]

theorem tokens_congr {source source' : σ}
    (h : TokenSource.next source = TokenSource.next source') :
    TokenSource.tokens source = TokenSource.tokens source' := by
  rw [TokenSource.tokens.eq_def source, TokenSource.tokens.eq_def source', h]

/-- What is left from a cursor, if there are two tokens. -/
theorem rest_append_last (hpeek : cursor.peek.kind ≠ .eof) :
    cursor.rest ++ [cursor.last] =
      cursor.current :: cursor.peek :: TokenSource.tokens cursor.source := by
  fun_induction rest cursor with
  | case1 cursor heof => exact absurd heof (current_ne_eof hpeek)
  | case2 cursor hne ih =>
    rw [last_of_ne_eof hne, List.cons_append]
    by_cases hsecond : cursor.advance.peek.kind = .eof
    · have hsource : TokenSource.tokens cursor.source = [cursor.advance.peek] :=
        tokens_of_eof hsecond
      rw [hsource, rest_of_ne_eof hpeek, last_of_ne_eof hpeek, rest_of_eof hsecond,
        last_of_eof hsecond]
      rfl
    · have hsource : TokenSource.tokens cursor.source =
          cursor.advance.peek :: TokenSource.tokens cursor.advance.source :=
        tokens_of_ne_eof hsecond
      rw [hsource, ih hsecond]
      rfl

/-- From the first token of a source on, all of its tokens are left. -/
theorem rest_append_last_start (source : σ) :
    (Cursor.start source).rest ++ [(Cursor.start source).last] = TokenSource.tokens source := by
  by_cases hfirst : (TokenSource.next source).1.kind = .eof
  · rw [rest_of_eof hfirst, last_of_eof hfirst, tokens_of_eof hfirst]
    rfl
  · rw [tokens_of_ne_eof hfirst]
    by_cases hsecond : (TokenSource.next (TokenSource.next source).2).1.kind = .eof
    · rw [tokens_of_eof hsecond, rest_of_ne_eof hfirst, last_of_ne_eof hfirst, rest_of_eof hsecond,
        last_of_eof hsecond]
      rfl
    · rw [tokens_of_ne_eof hsecond]
      exact rest_append_last hsecond

theorem rest_start_of_tokens {source : σ} {token : Token}
    (h : TokenSource.tokens source = ts ++ [token]) :
    (Cursor.start source).rest = ts ∧ (Cursor.start source).last = token := by
  have happend := (rest_append_last_start source).trans h
  exact ⟨(List.append_inj' happend rfl).1, by simpa using (List.append_inj' happend rfl).2⟩

theorem tokens_buffer (buffer : TokenBuffer) :
    TokenSource.tokens buffer = buffer.ahead ++ [buffer.last] := by
  have hgiven : (TokenSource.next buffer).1 = buffer.ahead.headD buffer.last := buffer.next_fst
  cases hahead : buffer.ahead with
  | nil =>
    rw [hahead] at hgiven
    rw [tokens_of_eof (hgiven ▸ buffer.last_eq_eof), hgiven]
    rfl
  | cons token ts =>
    rw [hahead] at hgiven
    have hne : token.kind ≠ .eof :=
      TokenBuffer.ne_eof_of_mem_ahead (hahead ▸ List.mem_cons_self)
    have hothers : buffer.next.2.ahead = ts := by rw [buffer.ahead_next, hahead, List.tail_cons]
    have hmore : TokenSource.tokens buffer.next.2 = ts ++ [buffer.last] := by
      rw [tokens_buffer buffer.next.2, hothers, buffer.last_next]
    rw [tokens_of_ne_eof (hgiven ▸ hne), hgiven]
    exact congrArg (token :: ·) hmore
termination_by buffer.ahead.length
decreasing_by
  rw [hothers, hahead]
  exact Nat.lt_succ_self _

/-- From the first token of a buffer on, what is left is what the buffer has ahead. -/
theorem rest_start_buffer (buffer : TokenBuffer) :
    (Cursor.start buffer).rest = buffer.ahead ∧ (Cursor.start buffer).last = buffer.last :=
  rest_start_of_tokens (tokens_buffer buffer)

/-! ## Ways -/

/-- The way from one cursor to another, without its end: the tokens on it, and a
property of every place on it. -/
inductive Passes (P : Cursor σ → Prop) : Cursor σ → List Token → Cursor σ → Prop where
  | here (cursor : Cursor σ) : Passes P cursor [] cursor
  | on {start cursor : Cursor σ} {ts : List Token} (h : P start)
      (hon : Passes P start.advance ts cursor) : Passes P start (start.current :: ts) cursor

variable {P Q : Cursor σ → Prop}

theorem Passes.one (h : P cursor) : cursor.Passes P [cursor.current] cursor.advance :=
  .on h (.here _)

theorem Passes.trans (h : start.Passes P ts middle) (h' : middle.Passes P us cursor) :
    start.Passes P (ts ++ us) cursor := by
  induction h with
  | here => exact h'
  | on hstart _ ih => exact .on hstart (ih h')

theorem Passes.mono (hPQ : ∀ place, P place → Q place) (h : start.Passes P ts cursor) :
    start.Passes Q ts cursor := by
  induction h with
  | here => exact .here _
  | on hstart _ ih => exact .on (hPQ _ hstart) ih

/-- The place of a token on a way. -/
theorem Passes.at {token : Token} (h : start.Passes P (ts ++ token :: us) cursor) :
    ∃ place, start.Passes P ts place ∧ place.current = token ∧ P place := by
  induction ts generalizing start with
  | nil =>
    cases h with
    | on hstart _ => exact ⟨start, .here start, rfl, hstart⟩
  | cons t ts ih =>
    cases h with
    | on hstart hon =>
      obtain ⟨place, hpasses, htoken, hplace⟩ := ih hon
      exact ⟨place, .on hstart hpasses, htoken, hplace⟩

/-- Where a way begins is on it, unless the way is none. -/
theorem Passes.current_mem (h : start.Passes P ts cursor) :
    start.current ∈ ts ++ [cursor.current] := by
  cases h <;> simp

/-- The token after the beginning of a way is on it, or not far behind. -/
theorem Passes.peek_mem (h : start.Passes P ts cursor) :
    start.peek ∈ ts ++ [cursor.current, cursor.peek] := by
  cases h with
  | here => simp
  | on _ hon =>
    have hmem := List.mem_append_left [cursor.peek] hon.current_mem
    rw [List.append_assoc] at hmem
    exact List.mem_cons_of_mem _ hmem

/-- A way comes nearer to the end. -/
theorem Passes.remaining_lt (hP : ∀ place, P place → place.current.kind ≠ .eof) (hts : ts ≠ [])
    (h : start.Passes P ts cursor) : cursor.remaining < start.remaining := by
  induction h with
  | here => exact absurd rfl hts
  | @on start cursor ts hstart hon ih =>
    have hlt := remaining_advance_lt (hP start hstart)
    by_cases hnil : ts = []
    · subst hnil
      cases hon
      exact hlt
    · exact Nat.lt_trans (ih hnil) hlt

/-- There is a way over any beginning of what is left. -/
theorem passes_skip {count : Nat} (hle : count ≤ start.rest.length) :
    start.Passes (fun place => place.current.kind ≠ .eof) (start.rest.take count)
      (start.skip count) := by
  induction count generalizing start with
  | zero => exact .here start
  | succ count ih =>
    have hne : start.current.kind ≠ .eof := fun heof => by
      rw [rest_of_eof heof] at hle
      simp at hle
    rw [rest_of_ne_eof hne] at hle ⊢
    rw [skip_succ]
    exact .on hne (ih (Nat.le_of_succ_le_succ hle))

/-- A way ends as far ahead as it is long. -/
theorem Passes.skip_eq (h : start.Passes P ts cursor) : cursor = start.skip ts.length := by
  induction h with
  | here => rfl
  | on _ _ ih => rw [List.length_cons, skip_succ, ← ih]

/-- There is a way to the end. -/
theorem exists_passes_rest (start : Cursor σ) :
    ∃ cursor, start.Passes (fun place => place.current.kind ≠ .eof) start.rest cursor ∧
      cursor.current.kind = .eof := by
  fun_induction rest start with
  | case1 start heof => exact ⟨start, .here start, heof⟩
  | case2 start hne ih =>
    obtain ⟨cursor, hpasses, heof⟩ := ih
    exact ⟨cursor, .on hne hpasses, heof⟩

/-- One place more at the end of a way. -/
theorem Passes.snoc (h : start.Passes P ts cursor) (hcursor : P cursor) :
    start.Passes P (ts ++ [cursor.current]) cursor.advance :=
  h.trans (.one hcursor)

/-- What is left after a way was left before it, behind the tokens of the way. -/
theorem Passes.rest_eq (hP : ∀ place, P place → place.current.kind ≠ .eof)
    (h : start.Passes P ts cursor) : start.rest = ts ++ cursor.rest := by
  induction h with
  | here => rfl
  | on hstart _ ih => rw [rest_of_ne_eof (hP _ hstart), ih, List.cons_append]

theorem Passes.last_eq (h : start.Passes P ts cursor) : cursor.last = start.last := by
  induction h with
  | here => rfl
  | on _ _ ih => rw [ih, last_advance]

/-! ## Readings -/

/-- The tokens from one cursor through another, none of which is an end token. -/
inductive Reads : Cursor σ → List Token → Cursor σ → Prop where
  | last (cursor : Cursor σ) (h : cursor.current.kind ≠ .eof) :
      Reads cursor [cursor.current] cursor
  | more {start cursor : Cursor σ} {ts : List Token} (h : start.current.kind ≠ .eof)
      (hmore : Reads start.advance ts cursor) : Reads start (start.current :: ts) cursor

theorem Reads.ne_nil (h : start.Reads ts cursor) : ts ≠ [] := by
  cases h <;> simp

theorem Reads.append (h : start.Reads ts middle) (h' : middle.advance.Reads us cursor) :
    start.Reads (ts ++ us) cursor := by
  induction h with
  | last middle hmiddle => exact .more hmiddle h'
  | more hstart _ ih => exact .more hstart (ih h')

/-- A reading of two parts stops between them. -/
theorem Reads.split (hts : ts ≠ []) (hus : us ≠ []) (h : start.Reads (ts ++ us) cursor) :
    ∃ middle, start.Reads ts middle ∧ middle.advance.Reads us cursor := by
  induction ts generalizing start with
  | nil => exact absurd rfl hts
  | cons t ts ih =>
    cases ts with
    | nil =>
      cases h with
      | last => exact absurd rfl hus
      | more hstart hmore => exact ⟨start, .last start hstart, hmore⟩
    | cons t' ts =>
      cases h with
      | more hstart hmore =>
        obtain ⟨middle, hts', hus'⟩ := ih (by simp) hmore
        exact ⟨middle, .more hstart hts', hus'⟩

/-- A reading of a single token. -/
theorem reads_singleton {token : Token} :
    start.Reads [token] cursor ↔
      cursor = start ∧ start.current = token ∧ start.current.kind ≠ .eof := by
  constructor
  · intro h
    cases h with
    | last _ hne => exact ⟨rfl, rfl, hne⟩
    | more _ hmore => exact absurd rfl hmore.ne_nil
  · intro hparts
    obtain ⟨rfl, rfl, hne⟩ := hparts
    exact .last _ hne

/-- A reading of a token and more tokens. -/
theorem reads_cons {token : Token} (hts : ts ≠ []) :
    start.Reads (token :: ts) cursor ↔
      start.current = token ∧ start.current.kind ≠ .eof ∧ start.advance.Reads ts cursor := by
  constructor
  · intro h
    cases h with
    | last => exact absurd rfl hts
    | more hne hmore => exact ⟨rfl, hne, hmore⟩
  · intro hparts
    obtain ⟨rfl, hne, hmore⟩ := hparts
    exact .more hne hmore

/-- A reading is a way that ends after the last token. -/
theorem Reads.passes (h : start.Reads ts cursor) :
    start.Passes (fun place => place.current.kind ≠ .eof) ts cursor.advance := by
  induction h with
  | last cursor hne => exact .one hne
  | more hne _ ih => exact .on hne ih

theorem Reads.rest_eq (h : start.Reads ts cursor) : start.rest = ts ++ cursor.advance.rest :=
  h.passes.rest_eq fun _ => id

/-- The last token of a reading, and the way up to it. -/
theorem Reads.init {token : Token} (h : start.Reads (ts ++ [token]) cursor) :
    start.Passes (fun place => place.current.kind ≠ .eof) ts cursor ∧ cursor.current = token := by
  cases ts with
  | nil =>
    obtain ⟨rfl, htoken, _⟩ := reads_singleton.1 h
    exact ⟨.here _, htoken⟩
  | cons t ts =>
    obtain ⟨middle, hreads, hlast⟩ := h.split (by simp) (by simp)
    obtain ⟨rfl, htoken, _⟩ := reads_singleton.1 hlast
    exact ⟨hreads.passes, htoken⟩

/-- One token more at the end of a reading. -/
theorem Reads.snoc (h : start.Reads ts cursor) (hne : cursor.peek.kind ≠ .eof) :
    start.Reads (ts ++ [cursor.peek]) cursor.advance :=
  h.append (.last cursor.advance hne)

/-- A way and the token after it are a reading. -/
theorem Passes.reads (hP : ∀ place, P place → place.current.kind ≠ .eof)
    (h : start.Passes P ts cursor) (hne : cursor.current.kind ≠ .eof) :
    start.Reads (ts ++ [cursor.current]) cursor := by
  induction h with
  | here cursor => exact .last cursor hne
  | on hstart _ ih => exact .more (hP _ hstart) (ih hne)

/-- A way that begins with some tokens reads them first. -/
theorem Passes.split (hP : ∀ place, P place → place.current.kind ≠ .eof) (hts : ts ≠ [])
    (h : start.Passes P (ts ++ us) cursor) :
    ∃ middle, start.Reads ts middle ∧ middle.advance.Passes P us cursor := by
  induction ts generalizing start with
  | nil => exact absurd rfl hts
  | cons t ts ih =>
    cases h with
    | on hstart hon =>
      cases ts with
      | nil => exact ⟨start, .last start (hP _ hstart), hon⟩
      | cons t' ts =>
        obtain ⟨middle, hreads, hpasses⟩ := ih (by simp) hon
        exact ⟨middle, .more (hP _ hstart) hreads, hpasses⟩

/-- A reading takes as many tokens as the cursor has moved on, and the current one. -/
theorem reads_skip {count : Nat} (hlt : count < start.rest.length) :
    start.Reads (start.rest.take (count + 1)) (start.skip count) := by
  induction count generalizing start with
  | zero =>
    have hne : start.current.kind ≠ .eof := fun heof => by
      rw [rest_of_eof heof] at hlt
      cases hlt
    rw [rest_of_ne_eof hne]
    exact .last start hne
  | succ count ih =>
    have hne : start.current.kind ≠ .eof := fun heof => by
      rw [rest_of_eof heof] at hlt
      cases hlt
    rw [rest_of_ne_eof hne] at hlt ⊢
    rw [skip_succ]
    exact .more hne (ih (Nat.lt_of_succ_lt_succ hlt))

/-- There is a reading of every beginning of what is left. -/
theorem exists_reads (hts : ts ≠ []) (h : start.rest = ts ++ us) :
    ∃ cursor, start.Reads ts cursor ∧ cursor.advance.rest = us := by
  induction ts generalizing start with
  | nil => exact absurd rfl hts
  | cons t ts ih =>
    have hne : start.current.kind ≠ .eof := fun heof => by
      rw [rest_of_eof heof] at h
      cases h
    rw [rest_of_ne_eof hne, List.cons_append, List.cons.injEq] at h
    obtain ⟨rfl, htail⟩ := h
    cases ts with
    | nil => exact ⟨start, .last start hne, htail⟩
    | cons t' ts =>
      obtain ⟨cursor, hreads, hus⟩ := ih (by simp) htail
      exact ⟨cursor, .more hne hreads, hus⟩

end Cursor

end BraceLang
