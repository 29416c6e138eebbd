/-!
# Decimal numerals

A numeral is at most one sign and then one ASCII digit or more.
`readInteger?` gives the integer that it writes, and `readInt64?` refuses one
that 64 bits cannot hold, so that no value ever wraps.
-/

namespace BraceLang.Text

/-- The value of an ASCII digit. -/
def digitValue (c : Char) : Nat :=
  c.toNat - '0'.toNat

/-- The number that decimal digits write, the most significant first. -/
def digitsValue (cs : List Char) : Nat :=
  cs.foldl (fun value c => 10 * value + digitValue c) 0

/-- The number that `cs` writes, if it is one ASCII digit or more and nothing
else. -/
def readNatural? (cs : List Char) : Option Nat :=
  if cs ≠ [] ∧ cs.all Char.isDigit then some (digitsValue cs) else none

/-- The integer that a numeral writes. -/
def readInteger? : List Char → Option Int
  | '+' :: digits => (readNatural? digits).map Int.ofNat
  | '-' :: digits => (readNatural? digits).map fun value => -Int.ofNat value
  | digits => (readNatural? digits).map Int.ofNat

/-- The value of a numeral as a 64-bit integer, if it is in range. -/
def readInt64? (text : String) : Option Int64 :=
  match readInteger? text.toList with
  | some value =>
    if h : Int64.minValue.toInt ≤ value ∧ value ≤ Int64.maxValue.toInt then
      some (Int64.ofIntLE value h.1 h.2)
    else
      none
  | none => none

/-- What is read is exactly the integer that the numeral writes. -/
theorem toInt_readInt64? {text : String} {value : Int64}
    (h : readInt64? text = some value) : readInteger? text.toList = some value.toInt := by
  unfold readInt64? at h
  split at h
  · rename_i written hread
    split at h
    · cases h
      rw [hread, Int64.toInt_ofIntLE]
    · simp at h
  · simp at h

end BraceLang.Text
