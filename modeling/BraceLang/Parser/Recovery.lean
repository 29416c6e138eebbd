import BraceLang.Parser.Descent

/-!
# Programs and recovery

A program is read in turns.  A turn reads one statement; if that fails, it gives
one diagnostic instead and passes over the rest of the statement, up to a
semicolon or closing brace that is no deeper than the statement began.  So one
broken statement costs one diagnostic, and the next turn begins with the next
statement.

`items` lists what the turns give, in the order of the source.
-/

namespace BraceLang

variable {σ : Type} [TokenSource σ]

/-- The fuel that suffices from a cursor on: at most four turns from entry point
to entry point lie between two advances. -/
def Cursor.fuel (cursor : Cursor σ) : Nat :=
  4 * (cursor.remaining + 2)

/-- Moves on to the end of a broken statement, which began with `base` braces
open: the end of the source, a semicolon at that depth or less, or a closing
brace that leads back there, with a semicolon that follows it. -/
def Cursor.synchronize (base : Nat) (cursor : Cursor σ) : Cursor σ :=
  if _h : cursor.current.kind = .eof then cursor
  else if cursor.current.kind = .semicolon ∧ cursor.depth ≤ base then cursor
  else if cursor.current.kind = .closeCurly ∧ cursor.depth ≤ base then
    cursor.skipOptional .semicolon
  else cursor.advance.synchronize base
termination_by cursor.remaining
decreasing_by exact Cursor.remaining_advance_lt ‹_›

/-- What one turn gives: a statement, or the diagnostic of a broken one. -/
abbrev Item : Type := Except Diagnostic Stmt

/-- One turn, and the cursor on the token after it.  There is no turn where the
statement uses up its fuel. -/
def turn? (grammar : Grammar) (cursor : Cursor σ) : Option (Item × Cursor σ) :=
  match (descent grammar cursor.fuel).stmt cursor with
  | .ok statement moved => some (.ok statement, moved.advance)
  | .fail diagnostic moved =>
    some (.error diagnostic, (moved.synchronize cursor.outerDepth).advance)
  | .exhausted => none

/-- What the turns up to the end of the source give, at most `count` of them, and
the cursor after them. -/
def itemsWithin (grammar : Grammar) : Nat → Cursor σ → List Item × Cursor σ
  | 0, cursor => ([], cursor)
  | count + 1, cursor =>
    if cursor.current.kind = .eof then ([], cursor)
    else
      match turn? grammar cursor with
      | some (item, moved) =>
        let others := itemsWithin grammar count moved
        (item :: others.1, others.2)
      | none => ([], cursor)

/-- What the turns up to the end of the source give, and the cursor there.  Each
turn takes a token, so there are no more turns than tokens. -/
def items (grammar : Grammar) (cursor : Cursor σ) : List Item × Cursor σ :=
  itemsWithin grammar cursor.remaining cursor

/-- The statements among the items. -/
def statementsOf (items : List Item) : List Stmt :=
  items.filterMap Except.toOption

/-- The diagnostics among the items. -/
def diagnosticsOf (items : List Item) : List Diagnostic :=
  items.filterMap fun
    | .ok _ => none
    | .error diagnostic => some diagnostic

end BraceLang
