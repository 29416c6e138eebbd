/-!
# Byte offsets in a text

Places in a text are counted in bytes of its UTF-8 form.  `byteSize` measures a
list of characters so, and `dropBytes?` finds the character that begins at an
offset; there is none where the offset falls inside a character or past the end.
-/

namespace BraceLang.Text

/-- The number of bytes that `cs` takes in UTF-8. -/
def byteSize (cs : List Char) : Nat :=
  cs.foldr (fun c size => c.utf8Size + size) 0

@[simp] theorem byteSize_nil : byteSize [] = 0 := rfl

@[simp] theorem byteSize_cons (c : Char) (cs : List Char) :
    byteSize (c :: cs) = c.utf8Size + byteSize cs := rfl

@[simp] theorem byteSize_append (cs ds : List Char) :
    byteSize (cs ++ ds) = byteSize cs + byteSize ds := by
  induction cs with
  | nil => simp
  | cons c cs ih => simp [ih, Nat.add_assoc]

/-- The characters after the first `count` bytes, if these are whole
characters. -/
def dropBytes? : Nat → List Char → Option (List Char)
  | 0, cs => some cs
  | _ + 1, [] => none
  | count + 1, c :: cs =>
    if c.utf8Size ≤ count + 1 then dropBytes? (count + 1 - c.utf8Size) cs else none

/-- Dropping the bytes of a first part leaves the second part. -/
theorem dropBytes?_byteSize_append (cs ds : List Char) :
    dropBytes? (byteSize cs) (cs ++ ds) = some ds := by
  induction cs with
  | nil => simp [dropBytes?]
  | cons c cs ih =>
    have hpos : 0 < c.utf8Size := Char.utf8Size_pos c
    obtain ⟨count, hcount⟩ : ∃ count, byteSize (c :: cs) = count + 1 :=
      ⟨byteSize (c :: cs) - 1, by simp; omega⟩
    have hsize : c.utf8Size + byteSize cs = count + 1 := by simpa using hcount
    rw [hcount, List.cons_append, dropBytes?, if_pos (by omega),
      show count + 1 - c.utf8Size = byteSize cs by omega, ih]

end BraceLang.Text
