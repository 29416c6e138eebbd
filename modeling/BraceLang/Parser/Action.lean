import BraceLang.Diagnostic
import BraceLang.Parser.Cursor

/-!
# Actions of the parser

An action moves a cursor and ends in one of three ways: with a value, with a
diagnostic, or not at all.  The third outcome stands for an action that was
stopped because it had used up what it was allowed.

Actions are composed with `do`: the first one that does not end with a value
ends the whole.
-/

namespace BraceLang

/-- How an action ends, with the state in which it leaves off. -/
inductive Outcome (σ α : Type) where
  /-- It gives a value. -/
  | ok (value : α) (state : σ)
  /-- It gives up. -/
  | fail (diagnostic : Diagnostic) (state : σ)
  /-- It was stopped before it could do either. -/
  | exhausted

namespace Outcome

variable {σ τ α β : Type}

/-- The same outcome in another state. -/
def mapState (f : σ → τ) : Outcome σ α → Outcome τ α
  | ok value state => ok value (f state)
  | fail diagnostic state => fail diagnostic (f state)
  | exhausted => exhausted

/-- The same outcome with another value. -/
def map (f : α → β) : Outcome σ α → Outcome σ β
  | ok value state => ok (f value) state
  | fail diagnostic state => fail diagnostic state
  | exhausted => exhausted

end Outcome

/-- A step or a sequence of steps of the parser over a source of type `σ`. -/
def Action (σ : Type) [TokenSource σ] (α : Type) : Type :=
  Cursor σ → Outcome (Cursor σ) α

namespace Action

variable {σ α β : Type} [TokenSource σ]

/-- Gives `value` and stays. -/
protected def pure (value : α) : Action σ α := fun cursor =>
  .ok value cursor

/-- Goes on where the first action ended with a value. -/
protected def bind (first : Action σ α) (rest : α → Action σ β) : Action σ β := fun cursor =>
  match first cursor with
  | .ok value moved => rest value moved
  | .fail diagnostic moved => .fail diagnostic moved
  | .exhausted => .exhausted

instance : Monad (Action σ) where
  pure := Action.pure
  bind := Action.bind

@[simp] theorem pure_apply (value : α) (cursor : Cursor σ) :
    (pure value : Action σ α) cursor = .ok value cursor := rfl

theorem bind_apply (first : Action σ α) (rest : α → Action σ β) (cursor : Cursor σ) :
    (first >>= rest) cursor =
      match first cursor with
      | .ok value moved => rest value moved
      | .fail diagnostic moved => .fail diagnostic moved
      | .exhausted => .exhausted := rfl

/-! ## Single steps -/

/-- The current token. -/
def current : Action σ Token := fun cursor =>
  .ok cursor.current cursor

/-- The token after the current one. -/
def peek : Action σ Token := fun cursor =>
  .ok cursor.peek cursor

/-- Gives up because of `cause`, and blames the token `blamed`. -/
def refuse (cause : Cause) (blamed : Token) : Action σ α := fun cursor =>
  .fail ⟨cause, blamed.start⟩ cursor

/-- Stops. -/
def stop : Action σ α := fun _ => .exhausted

/-- Moves on by one token. -/
def advance : Action σ Unit := fun cursor =>
  .ok () cursor.advance

/-- Moves on to the next token and gives it, if it is of `kind`.  Otherwise it is
refused, as no part of `construct`, and the cursor stays. -/
def expect (kind : TokenKind) (construct : String) : Action σ Token := fun cursor =>
  if cursor.peek.kind = kind then .ok cursor.peek cursor.advance
  else .fail ⟨.expectedToken construct kind cursor.peek.kind cursor.peek.text,
    cursor.peek.start⟩ cursor

/-- Moves on if the next token is of `kind`. -/
def skipOptional (kind : TokenKind) : Action σ Unit := fun cursor =>
  .ok () (cursor.skipOptional kind)

end Action

end BraceLang
