/-!
# Places in a source

A `Position` is a byte offset in a named source, and a `Span` runs from one
position up to another.
-/

namespace BraceLang

/-- A byte offset in the source named `file`. -/
structure Position where
  offset : Nat
  file : String
deriving DecidableEq, Repr

namespace Position

/-- The position of what stands in no source. -/
def null : Position := ⟨0, "<null>"⟩

/-- The name of the source and the offset, with a colon between. -/
def render (position : Position) : String :=
  position.file ++ ":" ++ toString position.offset

instance : Inhabited Position := ⟨null⟩

end Position

/-- The part of a source from `start` up to, and without, `stop`. -/
structure Span where
  start : Position
  stop : Position
deriving DecidableEq, Repr

namespace Span

/-- The span of what stands in no source. -/
def null : Span := ⟨.null, .null⟩

instance : Inhabited Span := ⟨null⟩

end Span

end BraceLang
