/-!
# Ranges of code points

A property of characters that follows no formula is a list of closed ranges of
code points.  `inRanges` looks a character up in such a list, and
`inRanges_iff` says what the answer means.
-/

namespace BraceLang.Text

/-- Whether the code point of `c` lies in one of the closed `ranges`. -/
def inRanges (ranges : List (Nat × Nat)) (c : Char) : Bool :=
  ranges.any fun range => range.1 ≤ c.toNat && c.toNat ≤ range.2

theorem inRanges_iff {ranges : List (Nat × Nat)} {c : Char} :
    inRanges ranges c = true ↔
      ∃ range ∈ ranges, range.1 ≤ c.toNat ∧ c.toNat ≤ range.2 := by
  simp [inRanges]

end BraceLang.Text
