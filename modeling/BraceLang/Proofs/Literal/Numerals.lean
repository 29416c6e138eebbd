import BraceLang.Text.Numeral
import Mathlib.Data.List.Induction
import Mathlib.Data.Nat.Digits.Defs

/-!
# The values of numerals

`Numeral` says which texts write an integer and which integer that is, by the digits of a
number to the base ten.  The reader of numerals is measured against it.

* `readInt64?` gives the integer that the text writes if 64 bits hold it, and nothing
  otherwise (`readInt64?_eq_some_iff`, `readInt64?_eq_none_iff`).  Zeros in front of the other
  digits do not count.
* Reading from digit to digit in 64 bits comes to the same (`readInt64?_eq_readChecked?`).
  Digits only lead away from zero, on the side that the sign is for, so what is out of range
  once does not come back, and the most negative integer is reached as well.
-/

namespace BraceLang.Text

variable {cs digits : List Char} {text : String} {value : Int} {number : Int64}

/-! ## Texts that write an integer -/

/-- One ASCII digit or more, and nothing else. -/
def Digits (cs : List Char) : Prop :=
  cs ≠ [] ∧ ∀ c ∈ cs, c.isDigit = true

instance (cs : List Char) : Decidable (Digits cs) :=
  decidable_of_iff (cs ≠ [] ∧ cs.all Char.isDigit = true) (by rw [List.all_eq_true, Digits])

/-- The number that has the digits `cs` to the base ten, the most significant first. -/
def decimal (cs : List Char) : Nat :=
  Nat.ofDigits 10 (cs.reverse.map digitValue)

/-- The integer that a text writes: digits, perhaps with one sign in front of them. -/
inductive Numeral : List Char → Int → Prop where
  | bare {digits : List Char} (h : Digits digits) : Numeral digits (decimal digits)
  | plus {digits : List Char} (h : Digits digits) : Numeral ('+' :: digits) (decimal digits)
  | minus {digits : List Char} (h : Digits digits) : Numeral ('-' :: digits) (-decimal digits)

/-- The integers that 64 bits hold. -/
def Fits (value : Int) : Prop :=
  -9223372036854775808 ≤ value ∧ value ≤ 9223372036854775807

instance (value : Int) : Decidable (Fits value) :=
  inferInstanceAs (Decidable (_ ∧ _))

theorem digitsValue_append (cs : List Char) (c : Char) :
    digitsValue (cs ++ [c]) = 10 * digitsValue cs + digitValue c := by
  rw [digitsValue, List.foldl_append]
  rfl

theorem decimal_append (cs : List Char) (c : Char) :
    decimal (cs ++ [c]) = digitValue c + 10 * decimal cs := by
  rw [decimal, List.reverse_append, List.reverse_singleton, List.singleton_append, List.map_cons,
    Nat.ofDigits_cons]
  rfl

/-- Adding up the digits from the left gives the number that has them. -/
theorem digitsValue_eq_decimal (cs : List Char) : digitsValue cs = decimal cs := by
  induction cs using List.reverseRecOn with
  | nil => rfl
  | append_singleton cs c ih =>
    rw [digitsValue_append, decimal_append, ih]
    exact Nat.add_comm _ _

example : digitsValue "0123456789".toList = 123456789 := by
  decide

theorem readNatural?_eq_some_iff {n : Nat} :
    readNatural? cs = some n ↔ Digits cs ∧ n = decimal cs := by
  rw [readNatural?, Option.ite_none_right_eq_some, Option.some.injEq, List.all_eq_true,
    digitsValue_eq_decimal, Digits, eq_comm]

theorem Digits.head_ne {c : Char} (h : Digits (c :: cs)) : c ≠ '+' ∧ c ≠ '-' := by
  have hdigit := h.2 c List.mem_cons_self
  constructor
  · rintro rfl
    cases hdigit
  · rintro rfl
    cases hdigit

/-- Digits are read as a number without a sign. -/
theorem readInteger?_digits (h : Digits cs) : readInteger? cs = some ↑(decimal cs) := by
  have hnatural : readNatural? cs = some (decimal cs) := readNatural?_eq_some_iff.2 ⟨h, rfl⟩
  unfold readInteger?
  split
  · exact absurd rfl h.head_ne.1
  · exact absurd rfl h.head_ne.2
  · rw [hnatural]
    rfl

theorem readInteger?_eq_some_iff : readInteger? cs = some value ↔ Numeral cs value := by
  constructor
  · intro hread
    unfold readInteger? at hread
    split at hread
    · obtain ⟨n, hn, rfl⟩ := Option.map_eq_some_iff.1 hread
      obtain ⟨hdigits, rfl⟩ := readNatural?_eq_some_iff.1 hn
      exact .plus hdigits
    · obtain ⟨n, hn, rfl⟩ := Option.map_eq_some_iff.1 hread
      obtain ⟨hdigits, rfl⟩ := readNatural?_eq_some_iff.1 hn
      exact .minus hdigits
    · obtain ⟨n, hn, rfl⟩ := Option.map_eq_some_iff.1 hread
      obtain ⟨hdigits, rfl⟩ := readNatural?_eq_some_iff.1 hn
      exact .bare hdigits
  · intro hnumeral
    cases hnumeral with
    | bare hdigits => exact readInteger?_digits hdigits
    | plus hdigits =>
      exact congrArg (Option.map Int.ofNat) (readNatural?_eq_some_iff.2 ⟨hdigits, rfl⟩)
    | minus hdigits =>
      exact congrArg (Option.map fun n => -Int.ofNat n)
        (readNatural?_eq_some_iff.2 ⟨hdigits, rfl⟩)

/-! ## 64 bits -/

/-- An integer in 64 bits, if they hold it. -/
def fit? (value : Int) : Option Int64 :=
  if h : Fits value then some (Int64.ofIntLE value h.1 h.2) else none

theorem fits_toInt (number : Int64) : Fits number.toInt :=
  ⟨number.minValue_le_toInt, number.toInt_le⟩

theorem fit?_of_fits (h : Fits value) : ∃ number, fit? value = some number ∧ number.toInt = value :=
  ⟨_, dif_pos h, Int64.toInt_ofIntLE⟩

theorem fit?_of_not_fits (h : ¬ Fits value) : fit? value = none :=
  dif_neg h

theorem fit?_toInt (number : Int64) : fit? number.toInt = some number := by
  obtain ⟨number', hfit, heq⟩ := fit?_of_fits (fits_toInt number)
  rw [hfit, Int64.toInt_inj.1 heq]

theorem readInt64?_eq_bind (text : String) :
    readInt64? text = (readInteger? text.toList).bind fit? := by
  unfold readInt64?
  cases readInteger? text.toList <;> rfl

/-- What is read is the integer that the text writes. -/
theorem readInt64?_eq_some_iff :
    readInt64? text = some number ↔ Numeral text.toList number.toInt := by
  constructor
  · exact fun hread => readInteger?_eq_some_iff.1 (toInt_readInt64? hread)
  · intro hnumeral
    rw [readInt64?_eq_bind, readInteger?_eq_some_iff.2 hnumeral]
    exact fit?_toInt number

/-- Nothing is read from texts that write no integer, or one that 64 bits do not hold. -/
theorem readInt64?_eq_none_iff :
    readInt64? text = none ↔ ∀ value, Numeral text.toList value → ¬ Fits value := by
  constructor
  · intro hnone value hnumeral hfits
    obtain ⟨number, _, rfl⟩ := fit?_of_fits hfits
    rw [readInt64?_eq_some_iff.2 hnumeral] at hnone
    cases hnone
  · intro hall
    rw [Option.eq_none_iff_forall_ne_some]
    exact fun number hread => hall _ (readInt64?_eq_some_iff.1 hread) (fits_toInt number)

/-! ## From digit to digit -/

/-- One digit more, away from zero, if product and sum are in range. -/
def push? (sign : Int) (number : Int64) (c : Char) : Option Int64 :=
  (fit? (number.toInt * 10)).bind fun shifted => fit? (shifted.toInt + sign * digitValue c)

/-- The integer that a text writes, with a check after every operation. -/
def readChecked? : List Char → Option Int64
  | '+' :: digits => if Digits digits then digits.foldlM (push? 1) 0 else none
  | '-' :: digits => if Digits digits then digits.foldlM (push? (-1)) 0 else none
  | digits => if Digits digits then digits.foldlM (push? 1) 0 else none

/-- No check fails before the number itself is out of range. -/
theorem push?_eq_fit? {sign : Int} {n : Nat} (hsign : sign = 1 ∨ sign = -1) (c : Char)
    (hnumber : number.toInt = sign * n) :
    push? sign number c = fit? (sign * ↑(digitValue c + 10 * n)) := by
  have hnext : number.toInt * 10 + sign * digitValue c = sign * ↑(digitValue c + 10 * n) := by
    rcases hsign with rfl | rfl <;> omega
  unfold push?
  by_cases hfits : Fits (number.toInt * 10)
  · obtain ⟨shifted, hfit, hshifted⟩ := fit?_of_fits hfits
    rw [hfit, Option.bind_some, hshifted, hnext]
  · have hout : ¬ Fits (sign * ↑(digitValue c + 10 * n)) := by
      unfold Fits at hfits ⊢
      rcases hsign with rfl | rfl <;> omega
    rw [fit?_of_not_fits hfits, fit?_of_not_fits hout]
    rfl

theorem foldlM_push? {sign : Int} (hsign : sign = 1 ∨ sign = -1) (digits : List Char) :
    digits.foldlM (push? sign) 0 = fit? (sign * decimal digits) := by
  induction digits using List.reverseRecOn with
  | nil =>
    have hzero : sign * (decimal [] : Nat) = Int64.toInt 0 := by
      rcases hsign with rfl | rfl <;> rfl
    rw [hzero, fit?_toInt]
    rfl
  | append_singleton digits c ih =>
    rw [List.foldlM_append, ih, decimal_append]
    by_cases hfits : Fits (sign * decimal digits)
    · obtain ⟨number, hfit, hnumber⟩ := fit?_of_fits hfits
      rw [hfit, ← push?_eq_fit? hsign c hnumber]
      show List.foldlM (push? sign) number [c] = push? sign number c
      rw [List.foldlM_cons, funext fun _ => List.foldlM_nil, bind_pure]
    · have hout : ¬ Fits (sign * ↑(digitValue c + 10 * decimal digits)) := by
        unfold Fits at hfits ⊢
        rcases hsign with rfl | rfl <;> omega
      rw [fit?_of_not_fits hfits, fit?_of_not_fits hout]
      rfl

theorem readChecked_digits {sign : Int} (hsign : sign = 1 ∨ sign = -1) (digits : List Char) :
    ((readNatural? digits).map fun n => sign * Int.ofNat n).bind fit? =
      if Digits digits then digits.foldlM (push? sign) 0 else none := by
  by_cases hdigits : Digits digits
  · rw [if_pos hdigits, foldlM_push? hsign, readNatural?_eq_some_iff.2 ⟨hdigits, rfl⟩]
    rfl
  · have hnone : readNatural? digits = none :=
      Option.eq_none_iff_forall_ne_some.2 fun n hn => hdigits (readNatural?_eq_some_iff.1 hn).1
    rw [if_neg hdigits, hnone]
    rfl

/-- Reading with a check after every operation is reading with one check at the end. -/
theorem readInt64?_eq_readChecked? (text : String) :
    readInt64? text = readChecked? text.toList := by
  have hpositive := readChecked_digits (.inl rfl)
  have hnegative := readChecked_digits (.inr rfl)
  simp only [Int.one_mul, Int.neg_one_mul] at hpositive hnegative
  rw [readInt64?_eq_bind]
  generalize text.toList = cs
  unfold readInteger?
  split
  · exact hpositive _
  · exact hnegative _
  · rename_i hplus hminus
    rw [readChecked?.eq_3 _ hplus hminus]
    exact hpositive _

end BraceLang.Text
