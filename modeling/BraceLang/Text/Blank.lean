import BraceLang.Text.Ranges

/-!
# Blank characters

The characters with the Unicode property `White_Space`.  They separate lexemes
and are part of none, quoted text apart.
-/

namespace BraceLang.Text

/-- The code points with the property `White_Space`, in ascending order. -/
def blankRanges : List (Nat × Nat) :=
  [(0x9, 0xd), (0x20, 0x20), (0x85, 0x85), (0xa0, 0xa0), (0x1680, 0x1680),
   (0x2000, 0x200a), (0x2028, 0x2029), (0x202f, 0x202f), (0x205f, 0x205f),
   (0x3000, 0x3000)]

/-- Whether `c` has the Unicode property `White_Space`. -/
def isBlank (c : Char) : Bool :=
  inRanges blankRanges c

end BraceLang.Text
