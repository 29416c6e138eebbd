import BraceLang.Token.Source

/-!
# Tokens from a list

A `TokenBuffer` gives out again tokens that were collected before.  The list it
is made from may hold an end token anywhere or nowhere: what stands after the
first one is never given out, and where there is none, one is added at the place
where the last token ends.

The buffer keeps what it has not looked at yet, behind an end token as well, so it
has to remember that it came to the end.  `ahead` is what it still gives out before
the end token: a call gives the first token of it (`next_fst`), and leaves the others
ahead (`ahead_next`).
-/

namespace BraceLang

/-- Tokens to be given out, the end token that follows them, and whether that was
given out already. -/
structure TokenBuffer where
  pending : List Token
  last : Token
  exhausted : Bool
  last_eq_eof : last.kind = .eof

namespace TokenBuffer

/-- Where a list of no tokens is said to end. -/
def origin : Position := ⟨0, "<buffer>"⟩

/-- The end token of a list: its own first one, or else one at the place where
its last token ends. -/
def endOf (tokens : List Token) : Token :=
  match tokens.find? fun token => token.kind = .eof with
  | some token => token
  | none => .eof ((tokens.getLast?.map Token.stop).getD origin)

theorem endOf_kind (tokens : List Token) : (endOf tokens).kind = .eof := by
  unfold endOf
  split
  · rename_i token hfind
    simpa using List.find?_some hfind
  · rfl

/-- The buffer that gives out the tokens before the first end token. -/
def ofList (tokens : List Token) : TokenBuffer where
  pending := tokens
  last := endOf tokens
  exhausted := false
  last_eq_eof := endOf_kind tokens

/-- The next token, and the buffer after it.  The first end token among those to be
given out, or none being left, exhausts the buffer. -/
def next : TokenBuffer → Token × TokenBuffer
  | ⟨pending, last, true, hlast⟩ => (last, ⟨pending, last, true, hlast⟩)
  | ⟨token :: pending, last, false, hlast⟩ =>
    if token.kind = .eof then (last, ⟨pending, last, true, hlast⟩)
    else (token, ⟨pending, last, false, hlast⟩)
  | ⟨[], last, false, hlast⟩ => (last, ⟨[], last, true, hlast⟩)

/-! ## What is ahead -/

/-- The tokens that are still given out before the end token. -/
def ahead (buffer : TokenBuffer) : List Token :=
  if buffer.exhausted then [] else buffer.pending.takeWhile fun token => token.kind ≠ .eof

theorem ahead_ofList (tokens : List Token) :
    (ofList tokens).ahead = tokens.takeWhile fun token => token.kind ≠ .eof := rfl

theorem ne_eof_of_mem_ahead {buffer : TokenBuffer} {token : Token} (h : token ∈ buffer.ahead) :
    token.kind ≠ .eof := by
  unfold ahead at h
  split at h
  · cases h
  · simpa using List.all_eq_true.1 List.all_takeWhile token h

/-- A call gives the first token that is ahead, or else the end token. -/
theorem next_fst (buffer : TokenBuffer) : buffer.next.1 = buffer.ahead.headD buffer.last := by
  obtain ⟨pending, last, exhausted, hlast⟩ := buffer
  cases exhausted with
  | true => rfl
  | false =>
    cases pending with
    | nil => rfl
    | cons token pending => by_cases hend : token.kind = .eof <;> simp [next, ahead, hend]

/-- After a call, the other tokens are ahead, and never again any that were not before. -/
theorem ahead_next (buffer : TokenBuffer) : buffer.next.2.ahead = buffer.ahead.tail := by
  obtain ⟨pending, last, exhausted, hlast⟩ := buffer
  cases exhausted with
  | true => rfl
  | false =>
    cases pending with
    | nil => rfl
    | cons token pending => by_cases hend : token.kind = .eof <;> simp [next, ahead, hend]

theorem last_next (buffer : TokenBuffer) : buffer.next.2.last = buffer.last := by
  unfold next
  split
  · rfl
  · split <;> rfl
  · rfl

instance : TokenSource TokenBuffer where
  next := next
  bound buffer := buffer.pending.length
  bound_next_lt
    | ⟨_, _, true, hlast⟩, h => absurd hlast h
    | ⟨token :: pending, last, false, hlast⟩, h => by
      by_cases hend : token.kind = .eof
      · rw [next, if_pos hend] at h
        exact absurd hlast h
      · rw [next, if_neg hend]
        exact Nat.lt_succ_self _
    | ⟨[], _, false, hlast⟩, h => absurd hlast h
  next_of_eof
    | ⟨_, _, true, _⟩, _ => rfl
    | ⟨token :: pending, last, false, hlast⟩, h => by
      by_cases hend : token.kind = .eof
      · rw [next, if_pos hend]
        rfl
      · rw [next, if_neg hend] at h
        exact absurd h hend
    | ⟨[], _, false, _⟩, _ => rfl

end TokenBuffer

end BraceLang
