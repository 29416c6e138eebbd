import BraceLang.Proofs.Invariance.Replay

/-!
# What a buffer gives out

Whatever list a buffer is made from, its calls give the tokens in front of the first end
token, one after the other, and from then on one and the same end token
(`ofList_replays`).  No call gets behind the first end token, so what stands there makes no
difference to a program.

* A call gives the first token that is ahead, or the end token if there is none, so the list
  of what is ahead says what every later call gives (`getElem?_take`).
* Of the list that a buffer is made from, the tokens before the first end token are ahead
  (`ahead_ofList_getElem?`), and that end token is the last one (`endOf_eq_getD`).
* Two lists that agree through an end token make cursors that are alike (`alike_ofList`).
-/

namespace BraceLang.TokenBuffer

/-! ## Calls -/

/-- What the calls give: the tokens ahead, and then the end token for ever. -/
theorem getElem?_take {count k : Nat} (h : k < count) (buffer : TokenBuffer) :
    (TokenSource.take count buffer)[k]? = some (buffer.ahead[k]?.getD buffer.last) := by
  induction count generalizing buffer k with
  | zero => cases h
  | succ count ih =>
    show (buffer.next.1 :: TokenSource.take count buffer.next.2)[k]? = _
    cases k with
    | zero =>
      rw [List.getElem?_cons_zero, next_fst, List.headD_eq_head?_getD, List.head?_eq_getElem?]
    | succ k =>
      rw [List.getElem?_cons_succ, ih (Nat.lt_of_succ_lt_succ h), ahead_next, last_next,
        List.getElem?_tail]

/-! ## Lists -/

/-- How many tokens stand in front of the first end token, or how many there are at all if
there is none. -/
def endIndex (tokens : List Token) : Nat :=
  tokens.findIdx fun token => token.kind = .eof

theorem ahead_ofList_getElem? (tokens : List Token) (k : Nat) :
    (ofList tokens).ahead[k]? = if k < endIndex tokens then tokens[k]? else none := by
  have hkinds : (fun token : Token => !decide (token.kind ≠ .eof)) =
      fun token => decide (token.kind = .eof) := by
    funext token
    simp
  rw [ahead_ofList, List.takeWhile_eq_take_findIdx_not, hkinds, List.getElem?_take]
  rfl

theorem endOf_eq_getD (tokens : List Token) :
    endOf tokens = tokens[endIndex tokens]?.getD
      (.eof ((tokens.getLast?.map Token.stop).getD ⟨0, "<buffer>"⟩)) := by
  unfold endOf
  rw [List.find?_eq_getElem?_findIdx, ← endIndex]
  split
  · rename_i token hlast
    rw [hlast]
    rfl
  · rename_i hnone
    rw [hnone]
    rfl

/-- What stands behind an end token is no part of what is left, and changes nothing in it. -/
theorem alike_ofList {last : Token} (hlast : last.kind = .eof) (before after after' : List Token) :
    (Cursor.start (ofList (before ++ last :: after))).Alike
      (Cursor.start (ofList (before ++ last :: after'))) := by
  apply Cursor.Alike.start
  · rw [Syntax.rest_start_ofList, Syntax.rest_start_ofList, List.takeWhile_append,
      List.takeWhile_append]
    simp [hlast]
  · rw [Syntax.last_start_ofList, Syntax.last_start_ofList]
    simp [endOf, List.find?_append, hlast]

/-- A buffer gives out the tokens in front of the first end token, and then always that end
token; where there is none, it is one at the place where the last token ends.  Lists that
agree through an end token make the same program. -/
theorem ofList_replays :
    (∀ (tokens : List Token) (count k : Nat), k < count →
      (TokenSource.take count (ofList tokens))[k]? =
        if k < endIndex tokens then tokens[k]?
        else some (tokens[endIndex tokens]?.getD
          (.eof ((tokens.getLast?.map Token.stop).getD ⟨0, "<buffer>"⟩)))) ∧
    ∀ (before after after' : List Token) (last : Token), last.kind = .eof →
      parseTokens (before ++ last :: after) = parseTokens (before ++ last :: after') := by
  refine ⟨fun tokens count k h => ?_, fun before after after' last hlast => ?_⟩
  · rw [getElem?_take h, ahead_ofList_getElem?, ← endOf_eq_getD]
    by_cases hk : k < endIndex tokens
    · have hlt : k < tokens.length := Nat.lt_of_lt_of_le hk List.findIdx_le_length
      rw [if_pos hk, if_pos hk, List.getElem?_eq_getElem hlt]
      rfl
    · rw [if_neg hk, if_neg hk]
      rfl
  · exact (alike_ofList hlast before after after').parse_eq

/-- An end token with a text of its own is given out again and again, and not the one that
stands behind it. -/
theorem ofList_replays_ends :
    let place : Span := ⟨⟨7, "ends"⟩, ⟨9, "ends"⟩⟩
    let name : Token := ⟨.identifier, "a", place⟩
    let first : Token := ⟨.eof, "first", place⟩
    let second : Token := ⟨.eof, "second", place⟩
    (TokenSource.take 5 (ofList [name, first, name, second]))[4]? = some first ∧
      parseTokens ([name] ++ first :: [name, second]) = parseTokens ([name] ++ first :: []) := by
  intro place name first second
  refine ⟨?_, ofList_replays.2 [name] [name, second] [] first rfl⟩
  rw [ofList_replays.1 [name, first, name, second] 5 4 (by decide)]
  rfl

end BraceLang.TokenBuffer
