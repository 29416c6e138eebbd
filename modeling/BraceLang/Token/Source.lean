import BraceLang.Token.Basic

/-!
# Sources of tokens

A `TokenSource` gives its tokens one at a time and never runs dry: past the last
token it gives end tokens.  Two laws hold of every source.  Each token but an end
token lowers `bound`, so the end is reached; and a source that has given an end
token gives the same one ever after.

`tokens` is the view of a source as a list, through its first end token.
-/

namespace BraceLang

/-- A state from which tokens are taken one by one. -/
class TokenSource (σ : Type) where
  /-- The next token, and the source after it. -/
  next : σ → Token × σ
  /-- No fewer than the tokens before the end. -/
  bound : σ → Nat
  bound_next_lt : ∀ source, (next source).1.kind ≠ .eof →
    bound (next source).2 < bound source
  next_of_eof : ∀ source, (next source).1.kind = .eof →
    next (next source).2 = next source

namespace TokenSource

variable {σ : Type} [TokenSource σ]

/-- The tokens of a source, through the first end token. -/
def tokens (source : σ) : List Token :=
  if (next source).1.kind = .eof then [(next source).1]
  else (next source).1 :: tokens (next source).2
termination_by bound source
decreasing_by exact bound_next_lt source ‹_›

/-- The first `count` tokens of a source; end tokens fill it up. -/
def take : Nat → σ → List Token
  | 0, _ => []
  | count + 1, source => (next source).1 :: take count (next source).2

end TokenSource

end BraceLang
