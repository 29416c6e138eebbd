import BraceLang.Text.Numeral
import BraceLang.Tree.Basic

/-!
# The syntax of the language

`Derives symbol ts tree` says that the tokens `ts` can be derived from `symbol`,
and that `tree` is the tree of the derivation.  There is one constructor for each
production.  The syntax is given without regard to how it is read: there are no
powers in it and no cursor.

Expressions have levels.  Levels 0 to 4 have the five groups of binary operators,
the loosest first, which all group to the left; level 5 has the operators in
front of an operand, level 6 the argument lists behind a callee, and level 7
everything that cannot be taken apart from outside.

A statement may leave out its semicolon, but not before every token.  So its
symbol has the kind of the token that follows as a parameter: `.stmt follow`.
-/

namespace BraceLang.Syntax

/-! ## Kinds of tokens -/

/-- The binary operators of a level. -/
def operators : Nat → List TokenKind
  | 0 => [.and, .or]
  | 1 => [.equals, .notEquals]
  | 2 => [.less, .lessEquals, .greater, .greaterEquals]
  | 3 => [.plus, .dash]
  | 4 => [.star, .slash, .percent]
  | _ => []

/-- Whether a token of `kind` behind an expression makes it longer: it is a binary
operator, or it begins an argument list. -/
def Extends (kind : TokenKind) : Prop :=
  (∃ level, kind ∈ operators level) ∨ kind = .openParen

/-! ## Symbols -/

/-- What tokens can be derived from. -/
inductive Symbol where
  /-- An expression of a level or higher. -/
  | expr (level : Nat)
  /-- The arguments of a call, with commas between them. -/
  | arguments
  /-- Arguments that each have a comma in front. -/
  | moreArguments
  /-- The parameters of a function, with commas between them. -/
  | parameters
  /-- One parameter or more. -/
  | names
  /-- Statements between braces. -/
  | block
  /-- A statement in front of a token of the kind `follow`. -/
  | stmt (follow : TokenKind)
  /-- Statements in front of a token of the kind `follow`. -/
  | stmts (follow : TokenKind)

/-- The trees of a symbol. -/
abbrev Symbol.Tree : Symbol → Type
  | expr _ => Expr
  | arguments => List Expr
  | moreArguments => List Expr
  | parameters => List Identifier
  | names => List Identifier
  | block => Block
  | stmt _ => Stmt
  | stmts _ => List Stmt

/-- The kind of the first token of `ts`, or `follow` if there is none. -/
def firstKind (ts : List Token) (follow : TokenKind) : TokenKind :=
  match ts with
  | [] => follow
  | token :: _ => token.kind

/-- How a statement ends that ends with an expression: with a semicolon, or with
nothing in front of a token that does not make the expression longer. -/
inductive Terminator (follow : TokenKind) : List Token → Prop where
  | semicolon (token : Token) (h : token.kind = .semicolon) : Terminator follow [token]
  | omitted (h : ¬ Extends follow) : Terminator follow []

/-- How a result without a value ends: with a semicolon, or with nothing in front
of a semicolon, a closing brace or the end. -/
inductive BareTerminator (follow : TokenKind) : List Token → Prop where
  | semicolon (token : Token) (h : token.kind = .semicolon) : BareTerminator follow [token]
  | omitted (h : follow = .semicolon ∨ follow = .closeCurly ∨ follow = .eof) :
      BareTerminator follow []

/-! ## Productions -/

/-- The tokens can be derived from the symbol, with the tree. -/
inductive Derives : (symbol : Symbol) → List Token → symbol.Tree → Prop where
  | binary {level : Nat} {ts us : List Token} {operator : Token} {left right : Expr}
      (hkind : operator.kind ∈ operators level) (hleft : Derives (.expr level) ts left)
      (hright : Derives (.expr (level + 1)) us right) :
      Derives (.expr level) (ts ++ operator :: us)
        (Expr.binary operator operator.text left right)
  | tighter {level : Nat} {ts : List Token} {expression : Expr} (hlevel : level < 7)
      (h : Derives (.expr (level + 1)) ts expression) : Derives (.expr level) ts expression
  | unary {ts : List Token} {operator : Token} {operand : Expr}
      (hkind : operator.kind = .not ∨ operator.kind = .dash)
      (hoperand : Derives (.expr 5) ts operand) :
      Derives (.expr 5) (operator :: ts) (Expr.unary operator operator.text operand)
  | call {ts us : List Token} {paren close : Token} {callee : Expr} {args : List Expr}
      (hcallee : Derives (.expr 6) ts callee) (hparen : paren.kind = .openParen)
      (hargs : Derives .arguments us args) (hclose : close.kind = .closeParen) :
      Derives (.expr 6) (ts ++ paren :: (us ++ [close])) (Expr.call paren callee args)
  | ident {token : Token} (hkind : token.kind = .identifier) :
      Derives (.expr 7) [token] (Expr.ident ⟨token, token.text⟩)
  | int {token : Token} {value : Int64} (hkind : token.kind = .integer)
      (hvalue : Text.readInt64? token.text = some value) :
      Derives (.expr 7) [token] (Expr.int token value)
  | str {token : Token} (hkind : token.kind = .string) :
      Derives (.expr 7) [token] (Expr.str token token.text)
  | true {token : Token} (hkind : token.kind = .trueWord) :
      Derives (.expr 7) [token] (Expr.bool token Bool.true)
  | false {token : Token} (hkind : token.kind = .falseWord) :
      Derives (.expr 7) [token] (Expr.bool token Bool.false)
  | group {ts : List Token} {paren close : Token} {expression : Expr}
      (hparen : paren.kind = .openParen) (h : Derives (.expr 0) ts expression)
      (hclose : close.kind = .closeParen) :
      Derives (.expr 7) (paren :: (ts ++ [close])) expression
  | cond {ts us : List Token} {word : Token} {condition : Expr} {consequence : Block}
      (hword : word.kind = .ifWord) (hcondition : Derives (.expr 0) ts condition)
      (hconsequence : Derives .block us consequence) :
      Derives (.expr 7) (word :: (ts ++ us)) (Expr.cond word condition consequence none)
  | condElse {ts us vs : List Token} {word other : Token} {condition : Expr}
      {consequence alternative : Block} (hword : word.kind = .ifWord)
      (hcondition : Derives (.expr 0) ts condition)
      (hconsequence : Derives .block us consequence) (hother : other.kind = .elseWord)
      (halternative : Derives .block vs alternative) :
      Derives (.expr 7) (word :: (ts ++ (us ++ other :: vs)))
        (Expr.cond word condition consequence (some alternative))
  | func {ts us : List Token} {word paren close : Token} {names : List Identifier}
      {body : Block} (hword : word.kind = .fnWord) (hparen : paren.kind = .openParen)
      (hnames : Derives .parameters ts names) (hclose : close.kind = .closeParen)
      (hbody : Derives .block us body) :
      Derives (.expr 7) (word :: paren :: (ts ++ close :: us)) (Expr.func word names body)
  | noArguments : Derives .arguments [] []
  | someArguments {ts us : List Token} {first : Expr} {others : List Expr}
      (hfirst : Derives (.expr 0) ts first) (hothers : Derives .moreArguments us others) :
      Derives .arguments (ts ++ us) (first :: others)
  | noMoreArguments : Derives .moreArguments [] []
  | moreArguments {ts us : List Token} {comma : Token} {first : Expr} {others : List Expr}
      (hcomma : comma.kind = .comma) (hfirst : Derives (.expr 0) ts first)
      (hothers : Derives .moreArguments us others) :
      Derives .moreArguments (comma :: (ts ++ us)) (first :: others)
  | noParameters : Derives .parameters [] []
  | someParameters {ts : List Token} {names : List Identifier} (h : Derives .names ts names) :
      Derives .parameters ts names
  | lastName {token : Token} (hkind : token.kind = .identifier) :
      Derives .names [token] [⟨token, token.text⟩]
  | moreNames {token comma : Token} {ts : List Token} {names : List Identifier}
      (hkind : token.kind = .identifier) (hcomma : comma.kind = .comma)
      (h : Derives .names ts names) :
      Derives .names (token :: comma :: ts) (⟨token, token.text⟩ :: names)
  | block {ts : List Token} {brace close : Token} {body : List Stmt}
      (hbrace : brace.kind = .openCurly) (hbody : Derives (.stmts .closeCurly) ts body)
      (hclose : close.kind = .closeCurly) :
      Derives .block (brace :: (ts ++ [close])) (Block.mk brace body)
  | bind {follow : TokenKind} {ts us : List Token} {word name sign : Token} {value : Expr}
      (hword : word.kind = .letWord) (hname : name.kind = .identifier)
      (hsign : sign.kind = .assignment) (hvalue : Derives (.expr 0) ts value)
      (hend : Terminator follow us) :
      Derives (.stmt follow) (word :: name :: sign :: (ts ++ us))
        (Stmt.bind word ⟨name, name.text⟩ value)
  | ret {follow : TokenKind} {ts us : List Token} {word : Token} {value : Expr}
      (hword : word.kind = .returnWord) (hvalue : Derives (.expr 0) ts value)
      (hend : Terminator follow us) :
      Derives (.stmt follow) (word :: (ts ++ us)) (Stmt.ret word (some value))
  | bareRet {follow : TokenKind} {us : List Token} {word : Token}
      (hword : word.kind = .returnWord) (hend : BareTerminator follow us) :
      Derives (.stmt follow) (word :: us) (Stmt.ret word none)
  | expr {follow : TokenKind} {ts us : List Token} {first : Token} {value : Expr}
      (hvalue : Derives (.expr 0) (first :: ts) value) (hend : Terminator follow us) :
      Derives (.stmt follow) (first :: (ts ++ us)) (Stmt.expr first value)
  | noStmts {follow : TokenKind} : Derives (.stmts follow) [] []
  | moreStmts {follow : TokenKind} {ts us : List Token} {first : Stmt} {others : List Stmt}
      (hfirst : Derives (.stmt (firstKind us follow)) ts first)
      (hothers : Derives (.stmts follow) us others) :
      Derives (.stmts follow) (ts ++ us) (first :: others)

/-- An expression of a level is one of every looser level. -/
theorem Derives.loosen {level level' : Nat} {ts : List Token} {expression : Expr}
    (h : Derives (.expr level) ts expression) (hle : level' ≤ level) (hlevel : level ≤ 7) :
    Derives (.expr level') ts expression := by
  induction hle with
  | refl => exact h
  | @step level hle ih => exact ih (.tighter (by omega) h) (by omega)

end BraceLang.Syntax
