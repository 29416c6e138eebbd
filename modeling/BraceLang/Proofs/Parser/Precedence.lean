import BraceLang.Parser.Basic
import BraceLang.Proofs.Parser.Path
import BraceLang.Proofs.Parser.Rules
import BraceLang.Token.Buffer

/-!
# Chains of operators

A chain is a row of operands with binary operators between them.  Each operand is a single
token, and each level of operators groups to one side: `right` says of a power whether equal
operators of this power group to the right.

* `Groups` is the tree of a chain, without regard to how it is read.  The root is an operator
  of the weakest power in the chain, the last one of them if the level groups to the left and
  the first one if it groups to the right, and both sides are built in the same way.  A chain
  has one tree only (`Groups.unique`).
* The parser makes its left operand longer step by step.  It takes the links above its floor
  (`above`), and each step keeps to the tree of the chain (`Groups.extend`).
* So an expression that is a chain is read as its tree, in every grammar
  (`Parser.parseExpr_chain`), where a token follows that goes on with no expression.

Nothing is assumed of the grammar but the rules of the tokens in the chain and of the one
behind it.  If this is the end, there must be no trailing rule for the end
(`Parser.parseExpr_chain_end`).
-/

namespace BraceLang

/-- A binary operator with its power, and the operand behind it with its value. -/
structure Link where
  operator : Token
  power : BindingPower
  operand : Token
  value : Expr

/-- The tokens of links, one after the other. -/
def Link.tokens (links : List Link) : List Token :=
  links.flatMap fun link => [link.operator, link.operand]

@[simp] theorem Link.length_tokens (links : List Link) :
    (tokens links).length = 2 * links.length := by
  induction links with
  | nil => rfl
  | cons link links ih =>
    simp only [tokens, List.flatMap_cons, List.length_append, List.length_cons,
      List.length_nil] at ih ⊢
    omega

@[simp] theorem Link.tokens_append (links more : List Link) :
    tokens (links ++ more) = tokens links ++ tokens more :=
  List.flatMap_append

/-! ## The tree of a chain -/

/-- The operator of `link` is the root of the chain with the links `before` and `after` around
it. -/
structure Root (right : BindingPower → Bool) (before : List Link) (link : Link)
    (after : List Link) : Prop where
  weakest : ∀ other ∈ before ++ after, link.power ≤ other.power
  rightmost : right link.power = false → ∀ other ∈ after, other.power ≠ link.power
  leftmost : right link.power = true → ∀ other ∈ before, other.power ≠ link.power

/-- The tree of the chain that begins with the operand `first`. -/
inductive Groups (right : BindingPower → Bool) : Expr → List Link → Expr → Prop where
  | operand (first : Expr) : Groups right first [] first
  | root {first lhs rhs : Expr} {before after : List Link} {link : Link}
      (hroot : Root right before link after) (hleft : Groups right first before lhs)
      (hright : Groups right link.value after rhs) :
      Groups right first (before ++ link :: after)
        (.binary link.operator link.operator.text lhs rhs)

section Trees

variable {right : BindingPower → Bool} {first left value tree : Expr} {link link' : Link}
  {before before' after after' inner outer : List Link}

/-- No root stands in front of another one. -/
theorem Root.not_mem (h : Root right before link after) (h' : Root right before' link' after')
    (hafter : link' ∈ after) : link ∉ before' := by
  intro hbefore
  have hle : link.power.rank ≤ link'.power.rank :=
    h.weakest link' (List.mem_append_right before hafter)
  have hle' : link'.power.rank ≤ link.power.rank :=
    h'.weakest link (List.mem_append_left after' hbefore)
  have hpower : link'.power = link.power := BindingPower.rank_injective (Nat.le_antisymm hle' hle)
  cases hside : right link.power with
  | false => exact h.rightmost hside link' hafter hpower
  | true =>
    rw [← hpower] at hside
    exact h'.leftmost hside link hbefore hpower.symm

/-- A chain has one root only. -/
theorem Root.unique (h : Root right before link after) (h' : Root right before' link' after')
    (heq : before ++ link :: after = before' ++ link' :: after') :
    before = before' ∧ link = link' ∧ after = after' := by
  rcases List.append_eq_append_iff.1 heq with ⟨middle, hbefore, hafter⟩ | ⟨middle, hbefore, hafter⟩
  · cases middle with
    | nil => simp_all
    | cons other middle =>
      obtain ⟨rfl, rfl⟩ := List.cons.inj hafter
      exact absurd (by simp [hbefore]) (h.not_mem h' (by simp))
  · cases middle with
    | nil => simp_all
    | cons other middle =>
      obtain ⟨rfl, rfl⟩ := List.cons.inj hafter
      exact absurd (by simp [hbefore]) (h'.not_mem h (by simp))

/-- A chain has one tree only. -/
theorem Groups.unique {links : List Link} (h : Groups right first links tree) {other : Expr}
    (h' : Groups right first links other) : other = tree := by
  induction h generalizing other with
  | operand first =>
    generalize hlinks : ([] : List Link) = links at h'
    cases h' with
    | operand => rfl
    | root => simp at hlinks
  | @root first lhs rhs before after link hroot _ _ ihleft ihright =>
    generalize hlinks : before ++ link :: after = links at h'
    cases h' with
    | operand => simp at hlinks
    | root hroot' hleft' hright' =>
      obtain ⟨rfl, rfl, rfl⟩ := hroot.unique hroot' hlinks
      rw [ihleft hleft', ihright hright']

/-- The floor of the operand behind an operator. -/
def operandFloor (right : BindingPower → Bool) (power : BindingPower) : BindingPower :=
  if right power then power.pred else power

theorem rank_operandFloor_le (right : BindingPower → Bool) (power : BindingPower) :
    (operandFloor right power).rank ≤ power.rank := by
  unfold operandFloor
  split
  · rw [BindingPower.rank_pred]
    exact Nat.sub_le _ _
  · exact Nat.le_refl _

theorem rank_operandFloor_lt {power : BindingPower} (h : right power = true)
    (hpos : 0 < power.rank) : (operandFloor right power).rank < power.rank := by
  rw [operandFloor, if_pos h, BindingPower.rank_pred]
  omega

theorem rank_le_of_operandFloor_lt {power other : BindingPower}
    (h : (operandFloor right power).rank < other.rank) :
    power.rank ≤ other.rank ∧ (right power = false → power.rank < other.rank) := by
  unfold operandFloor at h
  split at h
  · rename_i hright
    rw [BindingPower.rank_pred] at h
    exact ⟨by omega, fun hleft => absurd hright (by simp [hleft])⟩
  · exact ⟨Nat.le_of_lt h, fun _ => h⟩

theorem le_operandFloor {floor power : BindingPower} (h : floor < power) :
    floor ≤ operandFloor right power := by
  unfold operandFloor
  split
  · have hlt : floor.rank < power.rank := h
    show floor.rank ≤ power.pred.rank
    rw [BindingPower.rank_pred]
    omega
  · exact Nat.le_of_lt h

/-- The links that come next bind no stronger than the operand behind `link` asks for, so the
first part of the chain is an operand for them. -/
theorem Groups.extend (hpos : 0 < link.power.rank) (hvalue : Groups right link.value inner value)
    (hinner : ∀ other ∈ inner, (operandFloor right link.power).rank < other.power.rank)
    (houter : ∀ other ∈ outer.head?, other.power.rank ≤ (operandFloor right link.power).rank)
    (h : Groups right (.binary link.operator link.operator.text left value) outer tree) :
    Groups right left (link :: (inner ++ outer)) tree := by
  generalize hlonger : Expr.binary link.operator link.operator.text left value = longer at h
  induction h with
  | operand longer =>
    subst hlonger
    rw [List.append_nil]
    refine @Groups.root right left left value [] inner link ⟨fun other hother => ?_,
      fun hleft other hother heq => ?_, fun _ => List.forall_mem_nil _⟩ (.operand left) hvalue
    · exact (rank_le_of_operandFloor_lt (hinner other hother)).1
    · have hlt := (rank_le_of_operandFloor_lt (hinner other hother)).2 hleft
      rw [heq] at hlt
      exact Nat.lt_irrefl _ hlt
  | @root longer lhs rhs before after root hroot _ hright ihleft _ =>
    -- The root is no stronger than the first of the outer links, and so weaker than all of
    -- the inner ones.
    have hroot_le : root.power.rank ≤ (operandFloor right link.power).rank := by
      cases before with
      | nil => exact houter root (by simp)
      | cons head before =>
        have hhead : root.power.rank ≤ head.power.rank := hroot.weakest head (by simp)
        exact Nat.le_trans hhead (houter head (by simp))
    have hfloor_le := rank_operandFloor_le right link.power
    have hbefore : ∀ other ∈ before.head?,
        other.power.rank ≤ (operandFloor right link.power).rank := by
      cases before with
      | nil => simp
      | cons head before => simpa using houter
    have hsplit : link :: (inner ++ (before ++ root :: after)) =
        link :: (inner ++ before) ++ root :: after := by simp
    rw [hsplit]
    refine .root ⟨?_, hroot.rightmost, ?_⟩ (ihleft hbefore hlonger) hright
    · simp only [List.cons_append, List.append_assoc, List.forall_mem_cons,
        List.forall_mem_append]
      refine ⟨Nat.le_trans hroot_le hfloor_le, fun other hother => ?_, fun other hother => ?_,
        fun other hother => ?_⟩
      · exact Nat.le_of_lt (Nat.lt_of_le_of_lt hroot_le (hinner other hother))
      · exact hroot.weakest other (List.mem_append_left after hother)
      · exact hroot.weakest other (List.mem_append_right before hother)
    · intro hside
      simp only [List.forall_mem_cons, List.forall_mem_append]
      refine ⟨fun heq => ?_, fun other hother heq => ?_, hroot.leftmost hside⟩
      · have hlt := rank_operandFloor_lt (heq ▸ hside) hpos
        have hrank : link.power.rank = root.power.rank := congrArg BindingPower.rank heq
        omega
      · have hlt := hinner other hother
        rw [heq] at hlt
        omega

end Trees

/-! ## The links above a floor -/

/-- The links in front of the first one that does not bind stronger than the floor. -/
def above (floor : BindingPower) (links : List Link) : List Link :=
  links.takeWhile fun link => decide (floor < link.power)

/-- The links from the first one on that does not bind stronger than the floor. -/
def beyond (floor : BindingPower) (links : List Link) : List Link :=
  links.dropWhile fun link => decide (floor < link.power)

section Above

variable {floor floor' : BindingPower} {links : List Link}

theorem above_append_beyond (floor : BindingPower) (links : List Link) :
    above floor links ++ beyond floor links = links :=
  List.takeWhile_append_dropWhile

theorem lt_of_mem_above : ∀ link ∈ above floor links, floor < link.power := fun link hlink =>
  of_decide_eq_true (List.all_eq_true.1 List.all_takeWhile link hlink)

theorem above_eq_self (h : ∀ link ∈ links, floor < link.power) : above floor links = links := by
  have happend := @List.takeWhile_append_of_pos _ (fun link : Link => decide (floor < link.power))
    links [] (fun link hlink => decide_eq_true (h link hlink))
  rwa [List.append_nil, List.takeWhile_nil, List.append_nil] at happend

/-- Beyond a higher floor go on the links above a lower one. -/
theorem above_eq_append (h : floor ≤ floor') :
    above floor links = above floor' links ++ above floor (beyond floor' links) := by
  have hpos : ∀ link ∈ above floor' links, decide (floor < link.power) = true := fun link hlink =>
    decide_eq_true (Nat.lt_of_le_of_lt h (lt_of_mem_above link hlink))
  have happend := @List.takeWhile_append_of_pos _ _ _ (beyond floor' links) hpos
  rwa [above_append_beyond] at happend

theorem le_of_mem_head?_beyond : ∀ link ∈ (above floor (beyond floor' links)).head?,
    link.power ≤ floor' := by
  intro link hlink
  rw [above, List.head?_takeWhile, Option.mem_def, Option.filter_eq_some_iff] at hlink
  have hhead := List.head?_dropWhile_not (fun link => decide (floor' < link.power)) links
  rw [show (List.dropWhile _ links).head? = some link from hlink.1] at hhead
  have hnot : ¬ floor' < link.power := by simpa using hhead
  exact Nat.not_lt.1 hnot

end Above

/-! ## Reading a chain -/

/-- A token of `kind` goes on with no expression. -/
def Grammar.Ends (grammar : Grammar) (kind : TokenKind) : Prop :=
  kind = .semicolon ∨ grammar.power kind = .default

/-- The token is an operand by itself, of the given value. -/
structure Grammar.Operand (grammar : Grammar) (token : Token) (value : Expr) : Prop where
  leading : grammar.leading token.kind = some .literal
  literal : token.literal = .ok value

/-- The rule of the operators of a level. -/
def Grammar.sideRule (right : BindingPower → Bool) (power : BindingPower) : TrailingRule :=
  if right power then .binaryRight else .binary

/-- The operator of the link has its power in the grammar, and the rule of its level. -/
structure Grammar.Fits (grammar : Grammar) (right : BindingPower → Bool) (link : Link) :
    Prop where
  trailing : grammar.trailing link.operator.kind = some (link.power, sideRule right link.power)
  above : .default < link.power
  ne_semicolon : link.operator.kind ≠ .semicolon
  operand : grammar.Operand link.operand link.value

theorem Grammar.Ends.continuation {grammar : Grammar} {kind : TokenKind} (h : grammar.Ends kind)
    (floor : BindingPower) : grammar.continuation floor kind = none := by
  apply Option.eq_none_iff_forall_ne_some.2
  rintro ⟨power, rule⟩ hsome
  obtain ⟨htrailing, hne, hlt⟩ := Grammar.continuation_eq_some.1 hsome
  rcases h with rfl | hpower
  · exact hne rfl
  · rw [Grammar.power, htrailing] at hpower
    rw [show power = .default from hpower] at hlt
    exact Nat.not_lt_zero _ hlt

section Reading

open Descent

variable {σ : Type} [TokenSource σ] {grammar : Grammar} {right : BindingPower → Bool}
  {fuel : Nat} {floor : BindingPower} {cursor moved : Cursor σ} {left value : Expr}

/-- An operand is the left operand of what follows. -/
theorem expr_of_operand (h : grammar.Operand cursor.current value) :
    (descent grammar (fuel + 1)).expr floor cursor =
      (descent grammar fuel).chain floor value cursor := by
  apply Outcome.eq_of_ensures
  intro stopped ok bad hchain
  rw [descent_succ]
  refine ensures_exprStep.2 ⟨fun rule hrule => ?_, fun hnone => ?_⟩
  · rw [h.leading, Option.some.injEq] at hrule
    subst hrule
    refine ensures_literal.2 ⟨fun expression hexpression => ?_, fun cause hcause => ?_⟩
    · rw [h.literal, Except.ok.injEq] at hexpression
      rwa [← hexpression]
    · rw [h.literal] at hcause
      cases hcause
  · rw [h.leading] at hnone
    cases hnone

/-- An expression ends in front of a token that does not go on with it. -/
theorem chain_of_ends (h : grammar.continuation floor cursor.peek.kind = none) :
    (descent grammar (fuel + 1)).chain floor left cursor = .ok left cursor := by
  apply Outcome.eq_ok_of_ensures
  rw [descent_succ]
  refine ensures_chainStep.2 ⟨fun power rule hsome => ?_, fun _ => ⟨rfl, rfl⟩⟩
  rw [h] at hsome
  cases hsome

/-- An operator above the floor makes the expression longer by its operand. -/
theorem chain_of_fits {link : Link} (hfits : grammar.Fits right link)
    (hpeek : cursor.peek = link.operator) (hfloor : floor < link.power)
    (hexpr : (descent grammar fuel).expr (operandFloor right link.power) cursor.advance.advance =
      .ok value moved) :
    (descent grammar (fuel + 1)).chain floor left cursor =
      (descent grammar fuel).chain floor
        (.binary link.operator link.operator.text left value) moved := by
  have hcontinuation : grammar.continuation floor cursor.peek.kind =
      some (link.power, Grammar.sideRule right link.power) := by
    rw [hpeek]
    exact Grammar.continuation_eq_some.2 ⟨hfits.trailing, hfits.ne_semicolon, hfloor⟩
  have htrail : (descent grammar fuel : Descent σ).trail left link.power
      (Grammar.sideRule right link.power) =
        (descent grammar fuel).binary left (operandFloor right link.power) := by
    unfold Grammar.sideRule operandFloor
    split <;> rfl
  apply Outcome.eq_of_ensures
  intro stopped ok bad hchain
  rw [descent_succ]
  refine ensures_chainStep.2 ⟨fun power rule hsome => ?_, fun hnone => ?_⟩
  · rw [hcontinuation, Option.some.injEq, Prod.mk.injEq] at hsome
    obtain ⟨rfl, rfl⟩ := hsome
    rw [htrail, ensures_binary, hexpr]
    show ((descent grammar fuel).chain floor
      (.binary cursor.peek cursor.peek.text left value) moved).Ensures stopped ok bad
    rwa [hpeek]
  · rw [hcontinuation] at hnone
    cases hnone

/-- Where the first links of a chain are read, its last operand is the current token. -/
theorem exists_drop_tokens (taken : List Link) (token : Token) (more : List Token) :
    ∃ token', (token :: (Link.tokens taken ++ more)).drop (2 * taken.length) = token' :: more := by
  induction taken generalizing token with
  | nil => exact ⟨token, rfl⟩
  | cons link taken ih => exact ih link.operand

/-- An operator that does not bind stronger than the floor is left to others. -/
theorem continuation_of_not_lt {link : Link} (hfits : grammar.Fits right link)
    (hfloor : ¬ floor < link.power) : grammar.continuation floor link.operator.kind = none := by
  apply Option.eq_none_iff_forall_ne_some.2
  rintro ⟨power, rule⟩ hsome
  obtain ⟨htrailing, _, hlt⟩ := Grammar.continuation_eq_some.1 hsome
  rw [hfits.trailing, Option.some.injEq, Prod.mk.injEq] at htrailing
  rw [← htrailing.1] at hlt
  exact hfloor hlt

/-- Behind any expression, the links above the floor are read, and what is read is the tree of
the chain that they make with it. -/
def LinksRead (σ : Type) [TokenSource σ] (grammar : Grammar) (right : BindingPower → Bool)
    (after : List Token) (links : List Link) : Prop :=
  ∀ {fuel : Nat} {floor : BindingPower} {left : Expr} {cursor : Cursor σ} {token : Token},
    2 * links.length < fuel → cursor.rest = token :: (Link.tokens links ++ after) →
    grammar.Ends (after.headD cursor.last).kind →
    ∃ tree, Groups right left (above floor links) tree ∧
      (descent grammar fuel).chain floor left cursor =
        .ok tree (cursor.skip (2 * (above floor links).length))

variable {after : List Token}

theorem linksRead_nil : LinksRead σ grammar right after [] := by
  intro fuel floor left cursor token hfuel hrest hends
  obtain ⟨fuel, rfl⟩ := Nat.exists_eq_succ_of_ne_zero (Nat.ne_of_gt hfuel)
  have hpeek : cursor.peek = after.headD cursor.last := Cursor.peek_eq_headD hrest
  exact ⟨left, .operand left, chain_of_ends (hpeek ▸ hends.continuation floor)⟩

/-- One turn: the operand of the link takes the links above its own floor, and those that are
left go on with the longer expression. -/
theorem linksRead_cons {link : Link} {more : List Link} (hlink : grammar.Fits right link)
    (hmore : LinksRead σ grammar right after more)
    (hbeyond : LinksRead σ grammar right after
      (beyond (operandFloor right link.power) more)) :
    LinksRead σ grammar right after (link :: more) := by
  intro fuel floor left cursor token hfuel hrest hends
  rw [List.length_cons] at hfuel
  have hpeek : cursor.peek = link.operator := Cursor.peek_eq_headD hrest
  by_cases hfloor : floor < link.power
  · obtain ⟨fuel, rfl⟩ : ∃ less, fuel = less + 2 := ⟨fuel - 2, by omega⟩
    have hnext : (cursor.skip 2).rest = link.operand :: (Link.tokens more ++ after) := by
      rw [Cursor.rest_skip, hrest]
      rfl
    have hcurrent : (cursor.skip 2).current = link.operand := by
      rw [← Cursor.headD_rest, hnext]
      rfl
    have hlength : (beyond (operandFloor right link.power) more).length ≤ more.length :=
      (List.dropWhile_sublist _).length_le
    obtain ⟨value, hvalue, hinner⟩ := @hmore fuel (operandFloor right link.power) link.value
      (cursor.skip 2) link.operand (by omega) hnext (by rwa [Cursor.last_skip])
    rw [← expr_of_operand (hcurrent ▸ hlink.operand), ← Cursor.skip_add] at hinner
    -- The operand has taken some links, and the last token of them is the current one.
    obtain ⟨token', hdrop⟩ := exists_drop_tokens (above (operandFloor right link.power) more)
      link.operand (Link.tokens (beyond (operandFloor right link.power) more) ++ after)
    have hlast : (cursor.skip (2 + 2 * (above (operandFloor right link.power) more).length)).rest =
        token' :: (Link.tokens (beyond (operandFloor right link.power) more) ++ after) := by
      rw [Cursor.skip_add, Cursor.rest_skip, hnext, ← hdrop, ← List.append_assoc,
        ← Link.tokens_append, above_append_beyond]
    obtain ⟨tree, htree, houter⟩ := @hbeyond (fuel + 1) floor
      (.binary link.operator link.operator.text left value) _ token' (by omega) hlast
      (by rwa [Cursor.last_skip])
    have habove : above floor (link :: more) =
        link :: (above (operandFloor right link.power) more ++
          above floor (beyond (operandFloor right link.power) more)) := by
      rw [← above_eq_append (le_operandFloor hfloor)]
      exact List.takeWhile_cons_of_pos (by simpa using hfloor)
    rw [habove]
    refine ⟨tree, .extend hlink.above hvalue lt_of_mem_above le_of_mem_head?_beyond htree, ?_⟩
    rw [chain_of_fits hlink hpeek hfloor hinner, houter, ← Cursor.skip_add, List.length_cons,
      List.length_append]
    congr 2
    omega
  · have habove : above floor (link :: more) = [] :=
      List.takeWhile_cons_of_neg (by simpa using hfloor)
    obtain ⟨fuel, rfl⟩ := Nat.exists_eq_succ_of_ne_zero (Nat.ne_of_gt (Nat.zero_lt_of_lt hfuel))
    rw [habove]
    exact ⟨left, .operand left, chain_of_ends (hpeek ▸ continuation_of_not_lt hlink hfloor)⟩

/-- The links of every chain are read, in turns. -/
theorem linksRead : ∀ links : List Link, (∀ link ∈ links, grammar.Fits right link) →
    LinksRead σ grammar right after links
  | [], _ => linksRead_nil
  | link :: more, hfits =>
    have hbeyond := (List.dropWhile_sublist
      (fun other => decide (operandFloor right link.power < other.power)) (l := more))
    linksRead_cons (hfits link List.mem_cons_self)
      (linksRead more fun other hother => hfits other (List.mem_cons_of_mem link hother))
      (linksRead (beyond (operandFloor right link.power) more) fun other hother =>
        hfits other (List.mem_cons_of_mem link (hbeyond.subset hother)))
termination_by links => links.length
decreasing_by
  · exact Nat.lt_succ_self _
  · exact Nat.lt_succ_of_le hbeyond.length_le

end Reading

section Parsing

variable {σ : Type} [TokenSource σ] {parser : Parser σ} {right : BindingPower → Bool}
  {first : Token} {value : Expr} {links : List Link} {after : List Token}

/-- An expression that is a chain is read as the only tree of the chain, up to its last
operand, whatever the grammar has for other tokens. -/
theorem Parser.parseExpr_chain
    (hrest : parser.cursor.rest = first :: (Link.tokens links ++ after))
    (hfirst : parser.grammar.Operand first value)
    (hlinks : ∀ link ∈ links, parser.grammar.Fits right link)
    (hends : parser.grammar.Ends (after.headD parser.cursor.last).kind) :
    ∃ tree, (∀ other, Groups right value links other ↔ other = tree) ∧
      parser.parseExpr (.expr .default) =
        .ok tree { parser with cursor := parser.cursor.skip (2 * links.length) } ∧
      parser.cursor.Reads (first :: Link.tokens links)
        (parser.cursor.skip (2 * links.length)) := by
  have hlength := parser.cursor.length_rest_le
  rw [hrest, List.length_cons, List.length_append, Link.length_tokens] at hlength
  have hcurrent : parser.cursor.current = first := by
    rw [← Cursor.headD_rest, hrest]
    rfl
  have habove : above .default links = links :=
    above_eq_self fun link hlink => (hlinks link hlink).above
  obtain ⟨fuel, hfuel⟩ : ∃ less, parser.cursor.fuel = less + 1 :=
    ⟨parser.cursor.fuel - 1, by unfold Cursor.fuel; omega⟩
  obtain ⟨tree, htree, hchain⟩ := @linksRead σ _ parser.grammar right after links hlinks fuel
    .default value parser.cursor first (by unfold Cursor.fuel at hfuel; omega) hrest hends
  rw [habove] at htree hchain
  refine ⟨tree, fun other => ⟨htree.unique, ?_⟩, ?_, ?_⟩
  · rintro rfl
    exact htree
  · show ((BraceLang.descent parser.grammar parser.cursor.fuel).expr .default
      parser.cursor).mapState _ = _
    rw [hfuel, expr_of_operand (hcurrent ▸ hfirst), hchain]
    rfl
  · have hlt : 2 * links.length < parser.cursor.rest.length := by
      rw [hrest, List.length_cons, List.length_append, Link.length_tokens]
      omega
    have hreads := Cursor.reads_skip hlt
    rw [hrest, List.take_succ_cons, List.take_left' (Link.length_tokens links)] at hreads
    exact hreads

end Parsing

/-- Assignments that group to the right, above differences that group to the left. -/
theorem Parser.parseExpr_chain_sides :
    let place : Span := ⟨⟨0, "sides"⟩, ⟨0, "sides"⟩⟩
    let name : String → Token := fun text => ⟨.identifier, text, place⟩
    let read : String → Expr := fun text => .ident ⟨name text, text⟩
    let sign : Token := ⟨.assignment, "=", place⟩
    let minus : Token := ⟨.dash, "-", place⟩
    let tokens := [name "a", sign, name "b", sign, name "c", minus, name "d", minus, name "e",
      ⟨.semicolon, ";", place⟩]
    let parser := (Parser.start (TokenBuffer.ofList tokens)).registerTrailing .assignment
      .logical .binaryRight
    ∃ moved, parser.parseExpr (.expr .default) =
      .ok (.binary sign "=" (read "a") (.binary sign "=" (read "b")
        (.binary minus "-" (.binary minus "-" (read "c") (read "d")) (read "e")))) moved := by
  intro place name read sign minus tokens parser
  let right : BindingPower → Bool := fun power => power == .logical
  let assign : String → Link := fun text => ⟨sign, .logical, name text, read text⟩
  let subtract : String → Link := fun text => ⟨minus, .additive, name text, read text⟩
  have hrest := (Cursor.rest_start_buffer (TokenBuffer.ofList tokens)).1
  have hassign : ∀ text, parser.grammar.Fits right (assign text) := fun text =>
    ⟨rfl, show BindingPower.default < .logical by decide,
      show TokenKind.assignment ≠ .semicolon by decide, rfl, rfl⟩
  have hsubtract : ∀ text, parser.grammar.Fits right (subtract text) := fun text =>
    ⟨rfl, show BindingPower.default < .additive by decide,
      show TokenKind.dash ≠ .semicolon by decide, rfl, rfl⟩
  obtain ⟨tree, hgroups, hread, _⟩ := @Parser.parseExpr_chain _ _ parser right (name "a")
    (read "a") [assign "b", assign "c", subtract "d", subtract "e"]
    [⟨.semicolon, ";", place⟩] hrest ⟨rfl, rfl⟩ (by simp [hassign, hsubtract]) (.inl rfl)
  have hdifference : Groups right (read "c") [subtract "d", subtract "e"] _ :=
    @Groups.root right _ _ _ [subtract "d"] [] (subtract "e")
      ⟨by decide, by decide, by decide⟩
      (@Groups.root right _ _ _ [] [] (subtract "d") ⟨by decide, by decide, by decide⟩
        (.operand _) (.operand _)) (.operand _)
  have htree : Groups right (read "a") [assign "b", assign "c", subtract "d", subtract "e"] _ :=
    @Groups.root right _ _ _ [] [assign "c", subtract "d", subtract "e"] (assign "b")
      ⟨by decide, by decide, by decide⟩ (.operand _)
      (@Groups.root right _ _ _ [] [subtract "d", subtract "e"] (assign "c")
        ⟨by decide, by decide, by decide⟩ (.operand _) hdifference)
  rw [← (hgroups _).1 htree] at hread
  exact ⟨_, hread⟩

/-- A trailing rule for the end keeps a chain from being read there: behind its operator there
is no operand. -/
theorem Parser.parseExpr_chain_end :
    let place : Span := ⟨⟨0, "tokens"⟩, ⟨0, "tokens"⟩⟩
    let name : Token := ⟨.identifier, "a", place⟩
    let plus : Token := ⟨.plus, "+", place⟩
    let value : Expr := .ident ⟨name, "a"⟩
    let link : Link := ⟨plus, .additive, name, value⟩
    let parser := (Parser.start (TokenBuffer.ofList [name, plus, name])).registerTrailing .eof
      .additive .binary
    parser.cursor.rest = name :: Link.tokens [link] ∧ parser.grammar.Operand name value ∧
      parser.grammar.Fits (fun _ => false) link ∧ ∃ diagnostic moved,
        parser.parseExpr (.expr .default) = .fail diagnostic moved ∧
          diagnostic.cause = .noExpression .eof "EOF" := by
  intro place name plus value link parser
  refine ⟨(Cursor.rest_start_buffer (TokenBuffer.ofList [name, plus, name])).1, ⟨rfl, rfl⟩,
    ⟨rfl, by decide, by decide, rfl, rfl⟩, _, _, rfl, rfl⟩

end BraceLang
