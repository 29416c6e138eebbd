/-!
# Binding powers

How strongly an operator holds on to its operands.  Only the order of the powers
matters; `rank` numbers them from the weakest one up.
-/

namespace BraceLang

/-- The strength of an operator, the weakest first. -/
inductive BindingPower where
  /-- Binds nothing. -/
  | default
  | logical
  | equality
  | relational
  | additive
  | multiplicative
  | unary
  | call
deriving DecidableEq, Repr, Inhabited

namespace BindingPower

/-- Every power, the weakest first. -/
def all : List BindingPower :=
  [default, logical, equality, relational, additive, multiplicative, unary, call]

/-- The number of weaker powers. -/
def rank : BindingPower → Nat
  | default => 0
  | logical => 1
  | equality => 2
  | relational => 3
  | additive => 4
  | multiplicative => 5
  | unary => 6
  | call => 7

theorem rank_injective {p q : BindingPower} (h : p.rank = q.rank) : p = q := by
  revert h
  cases p <;> cases q <;> simp [rank]

/-- The name of a power. -/
def name : BindingPower → String
  | default => "Default"
  | logical => "Logical"
  | equality => "Equality"
  | relational => "Relational"
  | additive => "Additive"
  | multiplicative => "Multiplicative"
  | unary => "Unary"
  | call => "Call"

/-- The power that a name belongs to. -/
def ofName? (text : String) : Option BindingPower :=
  all.find? fun power => power.name = text

instance : LT BindingPower := ⟨fun p q => p.rank < q.rank⟩

instance : LE BindingPower := ⟨fun p q => p.rank ≤ q.rank⟩

instance (p q : BindingPower) : Decidable (p < q) :=
  inferInstanceAs (Decidable (p.rank < q.rank))

instance (p q : BindingPower) : Decidable (p ≤ q) :=
  inferInstanceAs (Decidable (p.rank ≤ q.rank))

instance : Ord BindingPower := ⟨fun p q => compare p.rank q.rank⟩

/-- The next weaker power; the weakest one stays. -/
def pred : BindingPower → BindingPower
  | default => default
  | logical => default
  | equality => logical
  | relational => equality
  | additive => relational
  | multiplicative => additive
  | unary => multiplicative
  | call => unary

theorem rank_pred (p : BindingPower) : p.pred.rank = p.rank - 1 := by
  cases p <;> rfl

end BindingPower

end BraceLang
