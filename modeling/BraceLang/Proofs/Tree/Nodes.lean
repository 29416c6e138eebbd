import BraceLang.Tree.Basic

/-!
# What holds of every node

A condition on trees is often one on each node by itself: on an expression without
regard to where it stands, on a statement, or on a block.  `Nodes` holds such
conditions, and `Expr.Everywhere` and the functions beside it say that they hold of
all nodes of a tree, the root included.
-/

namespace BraceLang

/-- Conditions on the nodes of a tree. -/
structure Nodes where
  expr : Expr → Prop := fun _ => True
  stmt : Stmt → Prop := fun _ => True
  block : Block → Prop := fun _ => True

mutual

/-- The conditions hold of every node of an expression. -/
def Expr.Everywhere (N : Nodes) : Expr → Prop
  | .ident identifier => N.expr (.ident identifier)
  | .int token value => N.expr (.int token value)
  | .str token value => N.expr (.str token value)
  | .bool token value => N.expr (.bool token value)
  | .unary token operator operand =>
    N.expr (.unary token operator operand) ∧ operand.Everywhere N
  | .binary token operator left right =>
    N.expr (.binary token operator left right) ∧ left.Everywhere N ∧ right.Everywhere N
  | .cond token condition consequence none =>
    N.expr (.cond token condition consequence none) ∧ condition.Everywhere N ∧
      consequence.Everywhere N
  | .cond token condition consequence (some alternative) =>
    N.expr (.cond token condition consequence (some alternative)) ∧ condition.Everywhere N ∧
      consequence.Everywhere N ∧ alternative.Everywhere N
  | .func token parameters body => N.expr (.func token parameters body) ∧ body.Everywhere N
  | .call token callee arguments =>
    N.expr (.call token callee arguments) ∧ callee.Everywhere N ∧
      Expr.EverywhereEach N arguments

/-- The conditions hold of every node of each expression. -/
def Expr.EverywhereEach (N : Nodes) : List Expr → Prop
  | [] => True
  | expression :: expressions =>
    expression.Everywhere N ∧ Expr.EverywhereEach N expressions

/-- The conditions hold of every node of a statement. -/
def Stmt.Everywhere (N : Nodes) : Stmt → Prop
  | .bind token name value => N.stmt (.bind token name value) ∧ value.Everywhere N
  | .ret token none => N.stmt (.ret token none)
  | .ret token (some value) => N.stmt (.ret token (some value)) ∧ value.Everywhere N
  | .expr token expression => N.stmt (.expr token expression) ∧ expression.Everywhere N

/-- The conditions hold of every node of each statement. -/
def Stmt.EverywhereEach (N : Nodes) : List Stmt → Prop
  | [] => True
  | statement :: statements =>
    statement.Everywhere N ∧ Stmt.EverywhereEach N statements

/-- The conditions hold of every node of a block. -/
def Block.Everywhere (N : Nodes) : Block → Prop
  | ⟨token, body⟩ => N.block ⟨token, body⟩ ∧ Stmt.EverywhereEach N body

end

/-! ## Weaker conditions -/

/-- What holds of a node by the first conditions holds of it by the second ones. -/
structure Nodes.Implies (N M : Nodes) : Prop where
  expr : ∀ expression, N.expr expression → M.expr expression
  stmt : ∀ statement, N.stmt statement → M.stmt statement
  block : ∀ block, N.block block → M.block block

section

variable {N M : Nodes}

mutual

theorem Expr.weaken (himp : N.Implies M) : ∀ expression : Expr,
    expression.Everywhere N → expression.Everywhere M
  | .ident _, h | .int _ _, h | .str _ _, h | .bool _ _, h => himp.expr _ h
  | .unary _ _ operand, h => ⟨himp.expr _ h.1, operand.weaken himp h.2⟩
  | .binary _ _ left right, h =>
    ⟨himp.expr _ h.1, left.weaken himp h.2.1, right.weaken himp h.2.2⟩
  | .cond _ condition consequence none, h =>
    ⟨himp.expr _ h.1, condition.weaken himp h.2.1, consequence.weaken himp h.2.2⟩
  | .cond _ condition consequence (some alternative), h =>
    ⟨himp.expr _ h.1, condition.weaken himp h.2.1, consequence.weaken himp h.2.2.1,
      alternative.weaken himp h.2.2.2⟩
  | .func _ _ body, h => ⟨himp.expr _ h.1, body.weaken himp h.2⟩
  | .call _ callee arguments, h =>
    ⟨himp.expr _ h.1, callee.weaken himp h.2.1, Expr.weaken_each himp arguments h.2.2⟩

theorem Expr.weaken_each (himp : N.Implies M) : ∀ expressions : List Expr,
    Expr.EverywhereEach N expressions → Expr.EverywhereEach M expressions
  | [], _ => trivial
  | expression :: expressions, h =>
    ⟨expression.weaken himp h.1, Expr.weaken_each himp expressions h.2⟩

theorem Stmt.weaken (himp : N.Implies M) : ∀ statement : Stmt,
    statement.Everywhere N → statement.Everywhere M
  | .bind _ _ value, h => ⟨himp.stmt _ h.1, value.weaken himp h.2⟩
  | .ret _ none, h => himp.stmt _ h
  | .ret _ (some value), h => ⟨himp.stmt _ h.1, value.weaken himp h.2⟩
  | .expr _ expression, h => ⟨himp.stmt _ h.1, expression.weaken himp h.2⟩

theorem Stmt.weaken_each (himp : N.Implies M) : ∀ statements : List Stmt,
    Stmt.EverywhereEach N statements → Stmt.EverywhereEach M statements
  | [], _ => trivial
  | statement :: statements, h =>
    ⟨statement.weaken himp h.1, Stmt.weaken_each himp statements h.2⟩

theorem Block.weaken (himp : N.Implies M) : ∀ block : Block,
    block.Everywhere N → block.Everywhere M
  | ⟨_, body⟩, h => ⟨himp.block _ h.1, Stmt.weaken_each himp body h.2⟩

end

end

theorem Stmt.everywhereEach_iff {N : Nodes} {statements : List Stmt} :
    Stmt.EverywhereEach N statements ↔ ∀ statement ∈ statements, statement.Everywhere N := by
  induction statements with
  | nil => simp [Stmt.EverywhereEach]
  | cons statement statements ih => rw [Stmt.EverywhereEach, ih, List.forall_mem_cons]

end BraceLang
