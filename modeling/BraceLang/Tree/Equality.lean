import BraceLang.Tree.Basic

/-!
# Equality of trees

Two trees are equal when they agree in every part, tokens and places included.
`Expr.beq` and the functions beside it compare them part by part, and
`Expr.beq_iff` and its companions say that the comparison is equality.
-/

namespace BraceLang

/-! ## Comparison part by part -/

mutual

/-- Whether two expressions agree in every part. -/
def Expr.beq : Expr → Expr → Bool
  | .ident i, .ident i' => i == i'
  | .int t v, .int t' v' => t == t' && v == v'
  | .str t v, .str t' v' => t == t' && v == v'
  | .bool t v, .bool t' v' => t == t' && v == v'
  | .unary t o e, .unary t' o' e' => t == t' && o == o' && e.beq e'
  | .binary t o l r, .binary t' o' l' r' => t == t' && o == o' && l.beq l' && r.beq r'
  | .cond t c b none, .cond t' c' b' none => t == t' && c.beq c' && b.beq b'
  | .cond t c b (some a), .cond t' c' b' (some a') =>
    t == t' && c.beq c' && b.beq b' && a.beq a'
  | .func t p b, .func t' p' b' => t == t' && p == p' && b.beq b'
  | .call t c as, .call t' c' as' => t == t' && c.beq c' && Expr.beqList as as'
  | _, _ => false

/-- Whether two lists of expressions agree in every part. -/
def Expr.beqList : List Expr → List Expr → Bool
  | [], [] => true
  | e :: es, e' :: es' => e.beq e' && Expr.beqList es es'
  | _, _ => false

/-- Whether two statements agree in every part. -/
def Stmt.beq : Stmt → Stmt → Bool
  | .bind t n e, .bind t' n' e' => t == t' && n == n' && e.beq e'
  | .ret t none, .ret t' none => t == t'
  | .ret t (some e), .ret t' (some e') => t == t' && e.beq e'
  | .expr t e, .expr t' e' => t == t' && e.beq e'
  | _, _ => false

/-- Whether two lists of statements agree in every part. -/
def Stmt.beqList : List Stmt → List Stmt → Bool
  | [], [] => true
  | s :: ss, s' :: ss' => s.beq s' && Stmt.beqList ss ss'
  | _, _ => false

/-- Whether two blocks agree in every part. -/
def Block.beq : Block → Block → Bool
  | ⟨t, ss⟩, ⟨t', ss'⟩ => t == t' && Stmt.beqList ss ss'

end

/-! ## The comparison is equality -/

mutual

theorem Expr.beq_iff : ∀ e e' : Expr, e.beq e' = true ↔ e = e'
  | .ident i, e' => by cases e' <;> simp [Expr.beq]
  | .int t v, e' => by cases e' <;> simp [Expr.beq]
  | .str t v, e' => by cases e' <;> simp [Expr.beq]
  | .bool t v, e' => by cases e' <;> simp [Expr.beq]
  | .unary t o e, e' => by cases e' <;> simp [Expr.beq, Expr.beq_iff e, and_assoc]
  | .binary t o l r, e' => by
    cases e' <;> simp [Expr.beq, Expr.beq_iff l, Expr.beq_iff r, and_assoc]
  | .cond t c b none, e' => by
    cases e' with
    | cond t' c' b' a' =>
      cases a' <;> simp [Expr.beq, Expr.beq_iff c, Block.beq_iff b, and_assoc]
    | _ => simp [Expr.beq]
  | .cond t c b (some a), e' => by
    cases e' with
    | cond t' c' b' a' =>
      cases a' <;>
        simp [Expr.beq, Expr.beq_iff c, Block.beq_iff b, Block.beq_iff a, and_assoc]
    | _ => simp [Expr.beq]
  | .func t p b, e' => by cases e' <;> simp [Expr.beq, Block.beq_iff b, and_assoc]
  | .call t c as, e' => by
    cases e' <;> simp [Expr.beq, Expr.beq_iff c, Expr.beqList_iff as, and_assoc]

theorem Expr.beqList_iff : ∀ es es' : List Expr, Expr.beqList es es' = true ↔ es = es'
  | [], es' => by cases es' <;> simp [Expr.beqList]
  | e :: es, es' => by
    cases es' <;> simp [Expr.beqList, Expr.beq_iff e, Expr.beqList_iff es]

theorem Stmt.beq_iff : ∀ s s' : Stmt, s.beq s' = true ↔ s = s'
  | .bind t n e, s' => by cases s' <;> simp [Stmt.beq, Expr.beq_iff e, and_assoc]
  | .ret t none, s' => by
    cases s' with
    | ret t' e' => cases e' <;> simp [Stmt.beq]
    | _ => simp [Stmt.beq]
  | .ret t (some e), s' => by
    cases s' with
    | ret t' e' => cases e' <;> simp [Stmt.beq, Expr.beq_iff e]
    | _ => simp [Stmt.beq]
  | .expr t e, s' => by cases s' <;> simp [Stmt.beq, Expr.beq_iff e]

theorem Stmt.beqList_iff : ∀ ss ss' : List Stmt, Stmt.beqList ss ss' = true ↔ ss = ss'
  | [], ss' => by cases ss' <;> simp [Stmt.beqList]
  | s :: ss, ss' => by
    cases ss' <;> simp [Stmt.beqList, Stmt.beq_iff s, Stmt.beqList_iff ss]

theorem Block.beq_iff : ∀ b b' : Block, b.beq b' = true ↔ b = b'
  | ⟨t, ss⟩, ⟨t', ss'⟩ => by simp [Block.beq, Stmt.beqList_iff ss]

end

instance : DecidableEq Expr := fun e e' => decidable_of_iff _ (Expr.beq_iff e e')

instance : DecidableEq Stmt := fun s s' => decidable_of_iff _ (Stmt.beq_iff s s')

instance : DecidableEq Block := fun b b' => decidable_of_iff _ (Block.beq_iff b b')

deriving instance DecidableEq for Program

end BraceLang
