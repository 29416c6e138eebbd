import BraceLang.Proofs.Scan.Units

/-!
# The languages of the lexeme classes

`LexemeClass.Accepts` says which texts are lexemes of a class, without regard to how they are
looked for.

* What a class splits off is a lexeme of the class, and no less than any other beginning of
  the text that is one (`accepts_of_split?`, `exists_split?_of_accepts`).
* Of two classes that match, the one in front in the table matches more (`table_pairwise`).
  Two classes begin with different characters, unless one is a longer fixed text than the
  other, or a comment.
-/

namespace BraceLang

open Text

namespace LexemeClass

/-! ## The language of a class -/

/-- A character in `first`, and characters in `more` behind it. -/
def IsRun (first more : Char → Bool) (cs : List Char) : Prop :=
  ∃ c ds, cs = c :: ds ∧ first c = true ∧ ∀ d ∈ ds, more d = true

/-- The text is a lexeme of the class. -/
def Accepts : LexemeClass → List Char → Prop
  | blank, cs => IsRun isBlank isBlank cs
  | comment, cs => ∃ line, cs = '/' :: '/' :: line ∧ '\n' ∉ line
  | word, cs => IsRun isWordStart isWordRest cs
  | numeral, cs => IsRun Char.isDigit Char.isDigit cs
  | quoted, cs => ∃ units : List QuotedUnit,
      cs = '"' :: (units.flatMap QuotedUnit.written ++ ['"'])
  | fixed _ text, cs => cs = text.toList

variable {cls other : LexemeClass} {cs matched rest : List Char}

theorem exists_units_of_splitBody? {body : List Char} (h : splitBody? cs = some (body, rest)) :
    ∃ units : List QuotedUnit, body = units.flatMap QuotedUnit.written := by
  obtain ⟨units, after, hrun⟩ := exists_quotedRun cs
  rw [hrun.text_eq, splitBody?_written] at h
  by_cases hopen : ∀ more, after ≠ '"' :: more
  · rw [splitBody?_of_unitless hrun.maximal hopen] at h
    cases h
  · simp only [ne_eq, Classical.not_forall, Classical.not_not] at hopen
    obtain ⟨more, rfl⟩ := hopen
    simp only [splitBody?, Option.map_some, List.append_nil, Option.some.injEq,
      Prod.mk.injEq] at h
    exact ⟨units, h.1.symm⟩

/-- What a class splits off is a lexeme of the class. -/
theorem accepts_of_split? (h : cls.split? cs = some (matched, rest)) : cls.Accepts matched := by
  cases cls with
  | blank | word | numeral => exact splitRun?_parts h
  | comment =>
    simp only [split?, splitComment?] at h
    split at h
    · rename_i ds
      simp only [Option.some.injEq, Prod.mk.injEq] at h
      refine ⟨_, h.1.symm, fun hmem => ?_⟩
      simpa using List.all_eq_true.1 List.all_takeWhile _ hmem
    · cases h
  | quoted =>
    simp only [split?, splitQuoted?] at h
    split at h
    · obtain ⟨split, hsplit, heq⟩ := Option.map_eq_some_iff.1 h
      cases heq
      obtain ⟨units, hunits⟩ := exists_units_of_splitBody? hsplit
      exact ⟨units, by rw [hunits]; rfl⟩
    · cases h
  | fixed kind text => exact eq_of_splitFixed? h

theorem toList_ne_nil_of_fixed {kind : TokenKind} {text : String} (h : fixed kind text ∈ table) :
    text.toList ≠ [] := by
  have hall : ∀ cls ∈ table,
      (match cls with
        | .fixed _ text => !text.toList.isEmpty
        | _ => true) = true := by decide
  simpa using hall _ h

theorem exists_splitRun?_of_isRun {first more : Char → Bool} (h : IsRun first more matched) :
    ∃ longer left, splitRun? first more (matched ++ rest) = some (longer, left) ∧
      matched.length ≤ longer.length := by
  obtain ⟨c, ds, rfl, hfirst, hmore⟩ := h
  refine ⟨_, _, if_pos hfirst, ?_⟩
  show ds.length + 1 ≤ ((ds ++ rest).takeWhile more).length + 1
  rw [List.takeWhile_append_of_pos hmore, List.length_append]
  omega

/-- A class of the table matches where a text of its language begins, and splits off no
less than that. -/
theorem exists_split?_of_accepts (hcls : cls ∈ table) (h : cls.Accepts matched) :
    ∃ longer left, cls.split? (matched ++ rest) = some (longer, left) ∧
      matched.length ≤ longer.length := by
  cases cls with
  | blank | word | numeral => exact exists_splitRun?_of_isRun h
  | comment =>
    obtain ⟨line, rfl, hline⟩ := h
    have hmore : ∀ c ∈ line, decide (c ≠ '\n') = true := fun c hc =>
      decide_eq_true fun heq => hline (heq ▸ hc)
    refine ⟨_, _, rfl, ?_⟩
    show line.length + 2 ≤ ((line ++ rest).takeWhile (fun c => decide (c ≠ '\n'))).length + 2
    rw [List.takeWhile_append_of_pos hmore, List.length_append]
    omega
  | quoted =>
    obtain ⟨units, rfl⟩ := h
    have hbody := splitBody?_written units ('"' :: rest)
    refine ⟨_, rest, ?_, Nat.le_refl _⟩
    show splitQuoted? ('"' :: (units.flatMap QuotedUnit.written ++ ['"'] ++ rest)) = _
    rw [List.append_assoc, List.singleton_append, splitQuoted?, hbody]
    simp [splitBody?]
  | fixed kind text =>
    obtain rfl : matched = text.toList := h
    have hne : text.toList ≠ [] := toList_ne_nil_of_fixed hcls
    refine ⟨text.toList, rest, ?_, Nat.le_refl _⟩
    rw [split?, splitFixed?, if_pos ⟨hne, by simp⟩, List.drop_left]

/-! ## Two classes that match -/

/-- Whether a lexeme of the class can begin with `c`. -/
def begins : LexemeClass → Char → Bool
  | blank, c => isBlank c
  | comment, c => c == '/'
  | word, c => isWordStart c
  | numeral, c => c.isDigit
  | quoted, c => c == '"'
  | fixed _ text, c => text.toList.head? == some c

theorem begins_of_accepts (hcls : cls ∈ table) (h : cls.Accepts matched) :
    ∃ c more, matched = c :: more ∧ cls.begins c = true := by
  cases cls with
  | blank | word | numeral =>
    obtain ⟨c, ds, rfl, hfirst, _⟩ := h
    exact ⟨c, ds, rfl, hfirst⟩
  | comment =>
    obtain ⟨line, rfl, _⟩ := h
    exact ⟨_, _, rfl, rfl⟩
  | quoted =>
    obtain ⟨units, rfl⟩ := h
    exact ⟨_, _, rfl, rfl⟩
  | fixed kind text =>
    obtain rfl : matched = text.toList := h
    have hne : text.toList ≠ [] := toList_ne_nil_of_fixed hcls
    obtain ⟨c, more, htext⟩ := List.exists_cons_of_ne_nil hne
    exact ⟨c, more, htext, by simp [begins, htext]⟩

/-- Wherever both classes match, the first one matches more. -/
def Outdoes (cls other : LexemeClass) : Prop :=
  ∀ ⦃cs matched rest less left : List Char⦄, cls.split? cs = some (matched, rest) →
    other.split? cs = some (less, left) → less.length < matched.length

/-- Classes that begin with different characters never match both. -/
theorem outdoes_of_begins (hcls : cls ∈ table) (hother : other ∈ table)
    (h : ∀ c, cls.begins c = true → other.begins c = false) : cls.Outdoes other := by
  intro cs matched rest less left hmatched hless
  obtain ⟨c, more, rfl, hc⟩ := begins_of_accepts hcls (accepts_of_split? hmatched)
  obtain ⟨d, more', rfl, hd⟩ := begins_of_accepts hother (accepts_of_split? hless)
  have happend := (split?_eq_some hmatched).1
  rw [← (split?_eq_some hless).1, List.cons_append, List.cons_append] at happend
  obtain ⟨rfl, _⟩ := List.cons.inj happend
  rw [h c hc] at hd
  cases hd

/-- Of two fixed texts that both match, the longer one is the one that does not begin the
other. -/
theorem outdoes_of_fixed {kind kind' : TokenKind} {text text' : String}
    (h : text.toList.isPrefixOf text'.toList = false) :
    (fixed kind text).Outdoes (fixed kind' text') := by
  intro cs matched rest less left hmatched hless
  obtain rfl : matched = text.toList := eq_of_splitFixed? hmatched
  obtain rfl : less = text'.toList := eq_of_splitFixed? hless
  have hmatched_prefix : text.toList <+: cs := ⟨rest, (split?_eq_some hmatched).1⟩
  have hless_prefix : text'.toList <+: cs := ⟨left, (split?_eq_some hless).1⟩
  apply Nat.lt_of_not_le
  intro hle
  have hprefix := List.isPrefixOf_iff_prefix.2
    (List.prefix_of_prefix_length_le hmatched_prefix hless_prefix hle)
  rw [h] at hprefix
  cases hprefix

/-- The fixed texts begin with no blank, letter, underscore, digit or quote, and the one that
begins with a slash is the slash. -/
theorem head_of_fixed {kind : TokenKind} {text : String} {c : Char}
    (h : fixed kind text ∈ table) (hc : text.toList.head? = some c) :
    isBlank c = false ∧ isWordStart c = false ∧ c.isDigit = false ∧ c ≠ '"' ∧
      (c = '/' → text = "/") := by
  have hall : ∀ cls ∈ table,
      (match cls with
        | .fixed _ text => text.toList.head?.all fun c =>
          decide (isBlank c = false ∧ isWordStart c = false ∧ c.isDigit = false ∧ c ≠ '"' ∧
            (c = '/' → text = "/"))
        | _ => true) = true := by decide
  have hhead := hall _ h
  simp only [hc, Option.all_some, decide_eq_true_eq] at hhead
  exact hhead

theorem isBlank_of_begins (hcls : cls ∈ table) (hne : cls ≠ blank) {c : Char}
    (h : cls.begins c = true) : isBlank c = false := by
  cases cls with
  | blank => exact absurd rfl hne
  | comment =>
    obtain rfl : c = '/' := eq_of_beq h
    rfl
  | word =>
    have hbounds := toNat_of_isWordStart h
    exact isBlank_eq_false (by omega) (by omega)
  | numeral =>
    have hbounds := toNat_of_isDigit h
    exact isBlank_eq_false (by omega) (by omega)
  | quoted =>
    obtain rfl : c = '"' := eq_of_beq h
    rfl
  | fixed kind text => exact (head_of_fixed hcls (eq_of_beq h)).1

theorem isWordStart_of_isDigit {c : Char} (h : c.isDigit = true) : isWordStart c = false := by
  apply Bool.eq_false_iff.2
  intro hword
  have hdigit := toNat_of_isDigit h
  have hletter := toNat_of_isWordStart hword
  omega

theorem outdoes_blank (hother : other ∈ table) (hne : other ≠ blank) :
    blank.Outdoes other := by
  refine outdoes_of_begins (by decide) hother fun c hc => Bool.eq_false_iff.2 fun hbegins => ?_
  rw [begins, isBlank_of_begins hother hne hbegins] at hc
  cases hc

/-- A comment matches more than the slash that it begins with. -/
theorem comment_outdoes_slash : comment.Outdoes (fixed .slash "/") := by
  intro cs matched rest less left hmatched hless
  obtain ⟨line, rfl, _⟩ := accepts_of_split? hmatched
  obtain rfl : less = ['/'] := eq_of_splitFixed? hless
  simp

theorem outdoes_fixed {kind : TokenKind} {text : String} (hcls : cls ∈ table)
    (hother : fixed kind text ∈ table) (h : ∀ kind text, cls ≠ fixed kind text) :
    cls.Outdoes (fixed kind text) := by
  by_cases hcomment : cls = comment ∧ text = "/"
  · obtain ⟨rfl, rfl⟩ := hcomment
    obtain rfl : kind = .slash := by
      have hkind := hother
      simp [table] at hkind
      exact hkind
    exact comment_outdoes_slash
  · refine outdoes_of_begins hcls hother fun c hc => Bool.eq_false_iff.2 fun hbegins => ?_
    obtain ⟨hblank, hword, hdigit, hquote, hslash⟩ := head_of_fixed hother (eq_of_beq hbegins)
    cases cls with
    | blank => rw [begins, hblank] at hc; cases hc
    | comment => exact hcomment ⟨rfl, hslash (eq_of_beq hc)⟩
    | word => rw [begins, hword] at hc; cases hc
    | numeral => rw [begins, hdigit] at hc; cases hc
    | quoted => exact hquote (eq_of_beq hc)
    | fixed kind text => exact h kind text rfl

theorem outdoes_of_mem_drop (hcls : cls ∈ table.take 5) (hother : other ∈ table.drop 5) :
    cls.Outdoes other := by
  have hmem : cls ∈ table := List.mem_of_mem_take hcls
  cases other with
  | fixed kind text =>
    refine outdoes_fixed hmem (List.mem_of_mem_drop hother) fun kind' text' heq => ?_
    rw [heq] at hcls
    simp [table] at hcls
  | _ => simp [table] at hother

/-- The classes that are no fixed texts begin with different characters. -/
theorem take_pairwise : (table.take 5).Pairwise Outdoes := by
  have hslash : ∀ other ∈ table, other.begins '/' = false → comment.Outdoes other := by
    intro other hother hbegins
    refine outdoes_of_begins (by decide) hother fun c hc => ?_
    obtain rfl : c = '/' := eq_of_beq hc
    exact hbegins
  have hquote : ∀ cls ∈ table, cls.begins '"' = false → cls.Outdoes quoted := by
    intro cls hcls hbegins
    refine outdoes_of_begins hcls (by decide) fun c hc => Bool.eq_false_iff.2 fun heq => ?_
    obtain rfl : c = '"' := eq_of_beq heq
    rw [hbegins] at hc
    cases hc
  have hword : word.Outdoes numeral :=
    outdoes_of_begins (by decide) (by decide) fun c hc => Bool.eq_false_iff.2 fun hdigit => by
      rw [begins, isWordStart_of_isDigit hdigit] at hc
      cases hc
  rw [show table.take 5 = [blank, comment, word, numeral, quoted] from rfl]
  simp only [List.pairwise_cons, List.forall_mem_cons, List.not_mem_nil, false_imp_iff,
    implies_true, List.Pairwise.nil, and_true]
  exact ⟨⟨outdoes_blank (by decide) (by decide), outdoes_blank (by decide) (by decide),
      outdoes_blank (by decide) (by decide), outdoes_blank (by decide) (by decide)⟩,
    ⟨hslash _ (by decide) rfl, hslash _ (by decide) rfl, hslash _ (by decide) rfl⟩,
    ⟨hword, hquote _ (by decide) rfl⟩, hquote _ (by decide) rfl⟩

/-- Of two classes that match, the one in front in the table matches more. -/
theorem table_pairwise : table.Pairwise Outdoes := by
  have hfixed : (table.drop 5).Pairwise Outdoes := by
    have hall : (table.drop 5).Pairwise fun cls other =>
        (match cls, other with
          | .fixed _ text, .fixed _ text' => text.toList.isPrefixOf text'.toList
          | _, _ => true) = false := by decide
    refine hall.imp fun {cls other} h => ?_
    cases cls <;> cases other <;> first | cases h | exact outdoes_of_fixed h
  rw [← List.take_append_drop 5 table, List.pairwise_append]
  exact ⟨take_pairwise, hfixed, fun cls hcls other hother => outdoes_of_mem_drop hcls hother⟩

end LexemeClass

end BraceLang
