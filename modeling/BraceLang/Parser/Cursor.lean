import BraceLang.Token.Source

/-!
# Cursors

A cursor stands on one token of a source and sees the one after it.  It also
counts the braces that are open there.

`remaining` bounds the tokens from the current one to the end, and an advance
from any token but the end lowers it (`remaining_advance_lt`).  At the end an
advance leaves the cursor where it is (`advance_of_eof`).
-/

namespace BraceLang

/-- How many braces are open after a token of `kind`, if `depth` are open before
it.  A closing brace that closes nothing counts for nothing. -/
def depthAfter (depth : Nat) (kind : TokenKind) : Nat :=
  match kind with
  | .openCurly => depth + 1
  | .closeCurly => depth - 1
  | _ => depth

/-- A place among the tokens of a source: the current token, the one after it,
the source of the others, and how many braces are open after the current one.

Past the end there is nothing but the end: a cursor on an end token sees the same
token again, and its source gives no other.  On an opening brace, that brace is
open. -/
structure Cursor (σ : Type) [TokenSource σ] where
  source : σ
  current : Token
  peek : Token
  depth : Nat
  peek_of_eof : current.kind = .eof → peek = current
  next_of_peek_eof : peek.kind = .eof → TokenSource.next source = (peek, source)
  depth_pos : current.kind = .openCurly → 0 < depth

namespace Cursor

variable {σ : Type} [TokenSource σ]

/-- How many braces are open around the current token: an opening brace does not
count itself. -/
def outerDepth (cursor : Cursor σ) : Nat :=
  if cursor.current.kind = .openCurly then cursor.depth - 1 else cursor.depth

/-- The cursor on the first token of a source. -/
def start (source : σ) : Cursor σ where
  source := (TokenSource.next (TokenSource.next source).2).2
  current := (TokenSource.next source).1
  peek := (TokenSource.next (TokenSource.next source).2).1
  depth := depthAfter 0 (TokenSource.next source).1.kind
  peek_of_eof h := congrArg Prod.fst (TokenSource.next_of_eof source h)
  next_of_peek_eof h := TokenSource.next_of_eof _ h
  depth_pos h := by simp [h, depthAfter]

/-- Moves on by one token. -/
def advance (cursor : Cursor σ) : Cursor σ where
  source := (TokenSource.next cursor.source).2
  current := cursor.peek
  peek := (TokenSource.next cursor.source).1
  depth := depthAfter cursor.depth cursor.peek.kind
  peek_of_eof h := congrArg Prod.fst (cursor.next_of_peek_eof h)
  next_of_peek_eof h := TokenSource.next_of_eof cursor.source h
  depth_pos h := by simp [h, depthAfter]

/-- The end is where a cursor stays. -/
theorem advance_of_eof {cursor : Cursor σ} (h : cursor.current.kind = .eof) :
    cursor.advance = cursor := by
  obtain ⟨source, current, peek, depth, hpeek, hnext, hdepth⟩ := cursor
  obtain rfl : peek = current := hpeek h
  have hsource : TokenSource.next source = (peek, source) := hnext h
  have hafter : depthAfter depth peek.kind = depth := by
    rw [show peek.kind = .eof from h]
    rfl
  simp only [advance, hsource, hafter]

/-- Moves on if the next token is of `kind`. -/
def skipOptional (kind : TokenKind) (cursor : Cursor σ) : Cursor σ :=
  if cursor.peek.kind = kind then cursor.advance else cursor

/-- No fewer than the tokens from the current one up to the end. -/
def remaining (cursor : Cursor σ) : Nat :=
  if cursor.current.kind = .eof then 0
  else if cursor.peek.kind = .eof then 1
  else TokenSource.bound cursor.source + 2

theorem remaining_of_eof {cursor : Cursor σ} (h : cursor.current.kind = .eof) :
    cursor.remaining = 0 := by
  simp [remaining, h]

/-- An advance comes nearer to the end. -/
theorem remaining_advance_lt {cursor : Cursor σ} (h : cursor.current.kind ≠ .eof) :
    cursor.advance.remaining < cursor.remaining := by
  have hnext := TokenSource.bound_next_lt cursor.source
  simp only [remaining, advance, if_neg h]
  by_cases hpeek : cursor.peek.kind = .eof
  · simp [hpeek]
  · by_cases hsecond : (TokenSource.next cursor.source).1.kind = .eof
    · simp [hpeek, hsecond]
    · have := hnext hsecond
      simp [hpeek, hsecond, this]

theorem remaining_advance_le (cursor : Cursor σ) :
    cursor.advance.remaining ≤ cursor.remaining - 1 := by
  by_cases h : cursor.current.kind = .eof
  · have hzero := remaining_of_eof h
    rw [advance_of_eof h]
    omega
  · have hlt := remaining_advance_lt h
    omega

/-- There is something left as long as the cursor is not at the end. -/
theorem remaining_pos {cursor : Cursor σ} (h : cursor.current.kind ≠ .eof) :
    0 < cursor.remaining :=
  Nat.lt_of_le_of_lt (Nat.zero_le _) (remaining_advance_lt h)

/-- Where another token follows, the current one is not the end. -/
theorem current_ne_eof {cursor : Cursor σ} (h : cursor.peek.kind ≠ .eof) :
    cursor.current.kind ≠ .eof := fun hcurrent =>
  h (cursor.peek_of_eof hcurrent ▸ hcurrent)

end Cursor

end BraceLang
