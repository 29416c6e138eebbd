import BraceLang.Proofs.Invariance.Dependence
import BraceLang.Proofs.Scan.Gaps
import Mathlib.Data.List.Forall2

/-!
# Layout

Blanks and comments separate tokens and do nothing else.  The tokens of a source can be
taken out of it and laid out anew, with other gaps between them: the tokens of the new
text are the same, each in its new place, and so are the statements and diagnostics that
are read from them (`tokenize_layout`).

A text is laid out from `Piece`s, each of which is the slice of a token and the gap behind
it.  `Laid` says of the gaps that they keep the tokens apart.  Then a scanner takes the
pieces one by one (`tokens_placed`), and what is read from the tokens does not depend on
their places (`parseSource_erase_spans`).
-/

namespace BraceLang

open Text

variable {scanner : Scanner}

/-! ## Pieces of a text -/

/-- The characters of a token, and the gap behind them. -/
structure Piece where
  slice : List Char
  gap : List Char

/-- The text of the gap `front` and the pieces behind it. -/
def laidOut (front : List Char) (pieces : List Piece) : List Char :=
  front ++ pieces.flatMap fun piece => piece.slice ++ piece.gap

/-- The gap `front` and those behind the pieces keep the tokens apart.  Behind a token a gap
begins with a blank, and there is none only behind the last token. -/
inductive Laid : List Char → List Piece → Prop where
  | last {front : List Char} (h : LastGap front) : Laid front []
  | piece {front : List Char} {piece : Piece} {pieces : List Piece} (h : Gap front)
      (hblank : Blanked piece.gap) (hne : pieces ≠ [] → piece.gap ≠ [])
      (hmore : Laid piece.gap pieces) : Laid front (piece :: pieces)

/-- The tokens of the pieces, where `front` begins at `offset`, and the end token. -/
def placed (file : String) : Nat → List Char → List Spelling → List Piece → List Token
  | offset, front, spelling :: spellings, piece :: pieces =>
    ⟨spelling.1, spelling.2, ⟨⟨offset + byteSize front, file⟩,
        ⟨offset + byteSize front + byteSize piece.slice, file⟩⟩⟩ ::
      placed file (offset + byteSize front + byteSize piece.slice) piece.gap spellings pieces
  | offset, front, _, _ => [.eof ⟨offset + byteSize front, file⟩]

/-- A token of this spelling was made of the slice, and is no quote that was left open. -/
structure Remade (spelling : Spelling) (piece : Piece) : Prop where
  ne_quote : spelling ≠ (.illegal, "\"")
  lexed : ∃ rest, Lexed spelling piece.slice rest

theorem laidOut_cons (front : List Char) (piece : Piece) (pieces : List Piece) :
    laidOut front (piece :: pieces) = front ++ (piece.slice ++ laidOut piece.gap pieces) := by
  simp [laidOut]

theorem Laid.blanked {piece : Piece} {pieces : List Piece} (hblank : Blanked piece.gap)
    (hne : pieces ≠ [] → piece.gap ≠ []) : Blanked (laidOut piece.gap pieces) := by
  unfold laidOut
  cases hgap : piece.gap with
  | nil =>
    have hnil : pieces = [] := Decidable.byContradiction fun hmore => hne hmore hgap
    rw [hnil]
    exact fun c hc => by cases hc
  | cons c gap =>
    rw [hgap] at hblank
    exact hblank

/-- Pieces that are laid out make their tokens again, each in its place. -/
theorem tokens_placed {front : List Char} {pieces : List Piece} {spellings : List Spelling}
    (h : Laid front pieces) (hmade : List.Forall₂ Remade spellings pieces)
    (hrest : scanner.rest = laidOut front pieces) :
    TokenSource.tokens scanner = placed scanner.file scanner.offset front spellings pieces := by
  induction h generalizing scanner spellings with
  | last h =>
    cases hmade
    rw [laidOut, List.flatMap_nil, List.append_nil] at hrest
    rw [← hrest] at h
    rw [Scanner.tokens_lastGap h, hrest, placed]
    exact fun _ _ _ _ hnil => by cases hnil
  | @piece front piece pieces h hblank hne hmore ih =>
    cases hmade with
    | @cons spelling _ spellings _ hfirst hothers =>
      obtain ⟨hquote, rest, hlexed⟩ := hfirst
      have hagain : Lexed spelling piece.slice (laidOut piece.gap pieces) :=
        hlexed.again hquote (Laid.blanked hblank hne)
      have hkind : spelling.1 ≠ .eof := by
        have hown : Lexed (Token.spelling ⟨spelling.1, spelling.2, .null⟩) piece.slice _ := hagain
        exact hown.standsFor.ne_eof
      -- The gap behind this piece is in front of the others.
      rw [laidOut_cons] at hrest
      have hnext : TokenSource.next scanner = _ :=
        (Scanner.next_gap h hrest).trans (Scanner.next_of_lexed hagain rfl)
      rw [Cursor.tokens_of_ne_eof (by rw [hnext]; exact hkind), hnext, ih hothers rfl]
      rfl

section Placed

variable {file : String} {offset : Nat} {front : List Char} {spellings : List Spelling}
  {pieces : List Piece}

theorem spellings_placed (h : spellings.length = pieces.length) :
    (placed file offset front spellings pieces).map Token.spelling =
      spellings ++ [(.eof, "EOF")] := by
  induction pieces generalizing offset front spellings with
  | nil =>
    obtain rfl := List.length_eq_zero_iff.1 h
    rfl
  | cons piece pieces ih =>
    cases spellings with
    | nil => cases h
    | cons spelling spellings => exact congrArg (spelling :: ·) (ih (Nat.succ.inj h))

/-- Each token spans the place where its slice was put. -/
theorem span_placed (h : spellings.length = pieces.length) {i : Nat} {piece : Piece}
    (hpiece : pieces[i]? = some piece) :
    ∃ token, (placed file offset front spellings pieces)[i]? = some token ∧
      token.span = ⟨⟨offset + byteSize (laidOut front (pieces.take i)), file⟩,
        ⟨offset + byteSize (laidOut front (pieces.take i)) + byteSize piece.slice, file⟩⟩ := by
  induction pieces generalizing offset front spellings i with
  | nil => cases hpiece
  | cons first pieces ih =>
    cases spellings with
    | nil => cases h
    | cons spelling spellings =>
      cases i with
      | zero =>
        cases hpiece
        refine ⟨_, rfl, ?_⟩
        simp [laidOut]
      | succ i =>
        obtain ⟨token, htoken, hspan⟩ := ih (Nat.succ.inj h) hpiece
        refine ⟨token, htoken, ?_⟩
        rw [hspan, List.take_succ_cons, laidOut_cons]
        simp only [byteSize_append, Nat.add_assoc]

end Placed

/-! ## Sources -/

/-- Nothing is left aside but places in the source. -/
def Erasure.spans : Erasure where
  token token := ⟨token.kind, token.text, .null⟩
  first token := ⟨token.kind, token.text, .null⟩
  text := id
  position _ := .null

theorem Erasure.view_spans_eq {token token' : Token} (h : token.spelling = token'.spelling) :
    spans.view token = spans.view token' := by
  obtain ⟨hkind, htext⟩ := Prod.mk.inj h
  simp only [view, spans, hkind, htext]

/-- Sources of the same tokens are read alike, but for the places. -/
theorem parseSource_erase_spans {source source' : String} {file file' : Option String}
    (h : (tokenize source file).map Token.spelling = (tokenize source' file').map Token.spelling) :
    (parseSource source file).erase .spans = (parseSource source' file').erase .spans := by
  have htokens : ∀ (source : String) (file : Option String),
      ((Cursor.start (Scanner.ofSource source file)).rest.map Erasure.spans.view) ++
        [Erasure.spans.view (Cursor.start (Scanner.ofSource source file)).last] =
      (tokenize source file).map Erasure.spans.view := by
    intro source file
    rw [tokenize, ← Cursor.rest_append_last_start, List.map_append]
    rfl
  have hviews : (tokenize source file).map Erasure.spans.view =
      (tokenize source' file').map Erasure.spans.view := by
    refine List.forall₂_eq_eq_eq ▸ List.forall₂_map_left_iff.2 (List.forall₂_map_right_iff.2 ?_)
    rw [← List.forall₂_eq_eq_eq, List.forall₂_map_left_iff, List.forall₂_map_right_iff] at h
    exact h.imp fun _ _ => Erasure.view_spans_eq
  obtain ⟨hrest, hlast⟩ := List.append_inj'
    ((htokens source file).trans (hviews.trans (htokens source' file').symm)) rfl
  exact parse_erase_eq .spans hrest (List.singleton_inj.1 hlast)

/-- The tokens that a source holds before its end are made of the slices. -/
theorem remade_of_slices {cs : List Char} {tokens : List Token} {pieces : List Piece}
    (hquote : ∀ token ∈ tokens, token.spelling ≠ (.illegal, "\""))
    (hlexed : ∀ token ∈ tokens, ∃ matched rest,
      slice? token.start.offset token.stop.offset cs = some matched ∧
        Lexed token.spelling matched rest)
    (hslices : (tokens.map fun token => slice? token.start.offset token.stop.offset cs) =
      pieces.map fun piece => some piece.slice) :
    List.Forall₂ Remade (tokens.map Token.spelling) pieces := by
  induction tokens generalizing pieces with
  | nil =>
    obtain rfl := List.map_eq_nil_iff.1 hslices.symm
    exact .nil
  | cons token tokens ih =>
    cases pieces with
    | nil => cases hslices
    | cons piece pieces =>
      obtain ⟨hslice, hslices⟩ := List.cons.inj hslices
      obtain ⟨matched, rest, hmatched, htoken⟩ := hlexed token List.mem_cons_self
      obtain rfl : matched = piece.slice := Option.some.inj (hmatched.symm.trans hslice)
      exact .cons ⟨hquote token List.mem_cons_self, rest, htoken⟩
        (ih (fun later hlater => hquote later (List.mem_cons_of_mem _ hlater))
          (fun later hlater => hlexed later (List.mem_cons_of_mem _ hlater)) hslices)

/-- Layout does not matter.  Where the slices of a source's tokens, none of which is a quote that
was left open, are laid out anew with any gaps that keep them apart, the new text has the same
tokens, each in the place where its slice was put, and the same is read from it, but for the
places. -/
theorem tokenize_layout (source : String) (file file' : Option String) (front : List Char)
    (pieces : List Piece)
    (hquote : ∀ token ∈ tokenize source file, token.spelling ≠ (.illegal, "\""))
    (hslices : (((tokenize source file).filter fun token => token.kind ≠ .eof).map fun token =>
        slice? token.start.offset token.stop.offset source.toList) =
      pieces.map fun piece => some piece.slice)
    (hlaid : Laid front pieces) :
    let source' := String.ofList (laidOut front pieces)
    let name := file'.getD Scanner.defaultFile
    (tokenize source' file').map Token.spelling = (tokenize source file).map Token.spelling ∧
      (∀ (i : Nat) (piece : Piece), pieces[i]? = some piece →
        ∃ token, (tokenize source' file')[i]? = some token ∧
          token.span = ⟨⟨byteSize (laidOut front (pieces.take i)), name⟩,
            ⟨byteSize (laidOut front (pieces.take i)) + byteSize piece.slice, name⟩⟩) ∧
      (parseSource source' file').erase .spans = (parseSource source file).erase .spans := by
  intro source' name
  obtain ⟨others, htokens, hothers⟩ := (tiles_tokens (Scanner.ofSource source file)).ends
  have htokens' : tokenize source file = others ++ [.eof _] := htokens
  have hfilter : (tokenize source file).filter (fun token => token.kind ≠ .eof) = others := by
    rw [htokens', List.filter_append, List.filter_eq_self.2 (by simpa using hothers)]
    simp [Token.eof]
  have hmem : ∀ token ∈ others, token ∈ tokenize source file := fun token htoken => by
    rw [htokens']
    exact List.mem_append_left _ htoken
  rw [hfilter] at hslices
  have hwhole : source.toList = [] ++ (Scanner.ofSource source file).rest := rfl
  have hmade : List.Forall₂ Remade (others.map Token.spelling) pieces :=
    remade_of_slices (fun token htoken => hquote token (hmem token htoken))
      (fun token htoken => lexed_of_mem_tokens hwhole rfl (hmem token htoken)
        (hothers token htoken)) hslices
  have hplaced : tokenize source' file' =
      placed name 0 front (others.map Token.spelling) pieces :=
    tokens_placed hlaid hmade String.toList_ofList
  have hlength := hmade.length_eq
  have hspellings : (tokenize source' file').map Token.spelling =
      (tokenize source file).map Token.spelling := by
    rw [hplaced, spellings_placed hlength, htokens', List.map_append]
    rfl
  refine ⟨hspellings, fun i piece hpiece => ?_, parseSource_erase_spans hspellings⟩
  rw [hplaced]
  have hspan := @span_placed name 0 front _ _ hlength i piece hpiece
  rwa [Nat.zero_add] at hspan

/-- A slash that stands next to comments, and an illegal character in front of one that is not
closed. -/
theorem tokenize_layout_quotient :
    let source := "a/b&"
    let front := ['/', '/', '\n']
    let pieces : List Piece := [⟨['a'], [' ']⟩, ⟨['/'], ['\t', '/', '/', '/', '\n']⟩,
      ⟨['b'], [' ', ' ']⟩, ⟨['&'], ['\n', '/', '/', '&']⟩]
    let source' := String.ofList (laidOut front pieces)
    (∀ token ∈ tokenize source none, token.spelling ≠ (.illegal, "\"")) ∧
      (((tokenize source none).filter fun token => token.kind ≠ .eof).map fun token =>
          slice? token.start.offset token.stop.offset source.toList) =
        pieces.map (fun piece => some piece.slice) ∧
      Laid front pieces ∧
      (tokenize source' none).map Token.spelling = (tokenize source none).map Token.spelling ∧
      (∀ (i : Nat) (piece : Piece), pieces[i]? = some piece →
        ∃ token, (tokenize source' none)[i]? = some token ∧
          token.span = ⟨⟨byteSize (laidOut front (pieces.take i)), "shell"⟩,
            ⟨byteSize (laidOut front (pieces.take i)) + byteSize piece.slice, "shell"⟩⟩) ∧
      (parseSource source' none).erase .spans = (parseSource source none).erase .spans := by
  intro source front pieces source'
  have hquote : ∀ token ∈ tokenize source none, token.spelling ≠ (.illegal, "\"") := by
    decide +kernel
  have hslices : (((tokenize source none).filter fun token => token.kind ≠ .eof).map fun token =>
      slice? token.start.offset token.stop.offset source.toList) =
      pieces.map fun piece => some piece.slice := by decide +kernel
  have hfront : Gap front := @Gap.comment [] [] (by decide) .nil
  have hslash : Gap ['\t', '/', '/', '/', '\n'] :=
    .blank rfl (@Gap.comment ['/'] [] (by decide) .nil)
  have hlast : LastGap (['\n'] ++ ['/', '/', '&']) := .unclosed (.blank rfl .nil) (by decide)
  have hlaid : Laid front pieces := by
    refine .piece hfront ?_ (by simp) (.piece (.blank rfl .nil) ?_ (by simp) (.piece hslash ?_
      (by simp) (.piece (.blank rfl (.blank rfl .nil)) ?_ (by simp) (.last hlast)))) <;>
    exact fun c hc => by cases hc; rfl
  exact ⟨hquote, hslices, hlaid, tokenize_layout source none none front pieces hquote hslices hlaid⟩

end BraceLang
