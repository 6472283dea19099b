/-
# The pieces of a source

Lexing cuts a source into pieces: blank runs, comments and tokens.  Main statements: the pieces that a
scan takes lie one behind the other without a gap (`Lexer.Scan.tiles`) and together are the text that
it has passed (`Lexer.Scan.rest_eq`), a token holds no blank (`Lexer.Took.blank_free`), and the
trivia before it are maximal runs that alternate (`TriviaRun`).
-/
import Mathlib.Data.List.Chain
import PieSyntax.Proofs.Scan

namespace PieSyntax

open Text

/-! ## Cutting at a known place -/

namespace Text

/-- A text splits where its first part ends. -/
theorem splitBytes?_append (before after : List Char) :
    splitBytes? (byteLength before) (before ++ after) = some (before, after) := by
  induction before with
  | nil => simp [splitBytes?]
  | cons c rest ih =>
    have hc := c.utf8Size_pos
    obtain ⟨n, hn⟩ : ∃ n, byteLength (c :: rest) = n + 1 :=
      ⟨c.utf8Size - 1 + byteLength rest, by rw [byteLength_cons]; omega⟩
    have hle : c.utf8Size ≤ n + 1 := by rw [← hn, byteLength_cons]; omega
    have hsub : n + 1 - c.utf8Size = byteLength rest := by rw [← hn, byteLength_cons]; omega
    rw [hn, List.cons_append, splitBytes?, if_pos hle, hsub, ih]
    rfl

/-- The slice between two offsets is the text that stands there. -/
theorem slice?_append (before text after : List Char) :
    slice? (before ++ text ++ after) (byteLength before) (byteLength before + byteLength text) =
      some text := by
  rw [slice?, if_pos (by omega), List.append_assoc, splitBytes?_append,
    Nat.add_sub_cancel_left]
  simp [splitBytes?_append]

theorem byteLength_pos {text : List Char} (h : text ≠ []) : 0 < byteLength text := by
  cases text with
  | nil => exact absurd rfl h
  | cons c rest =>
    have hc := c.utf8Size_pos
    rw [byteLength_cons]
    omega

end Text

/-! ## Tilings -/

/-- A stretch of a source with its place. -/
structure Piece where
  text : List Char
  span : Span

/-- The piece that a blank run or a comment is. -/
def Trivia.piece (x : Trivia) : Piece := ⟨x.text, x.span⟩

/-- The piece that a token is, without the trivia before it. -/
def Token.piece (t : Token) : Piece := ⟨t.text, t.span⟩

/-- The trivia before a token and the token itself. -/
def Token.pieces (t : Token) : List Piece := t.leading.map Trivia.piece ++ [t.piece]

/-- The pieces of trivia spell their texts. -/
theorem Trivia.flatMap_piece (xs : List Trivia) :
    (xs.map Trivia.piece).flatMap Piece.text = xs.flatMap Trivia.text := by
  rw [List.flatMap_map]
  rfl

/-- The pieces of a token spell its trivia and its text. -/
theorem Token.flatMap_pieces (t : Token) : t.pieces.flatMap Piece.text = t.source := by
  rw [pieces, List.flatMap_append, Trivia.flatMap_piece]
  simp [piece, source]

/-- The pieces lie one behind the other from byte `a` to byte `b`, and none is empty. -/
def Tiles : Nat → List Piece → Nat → Prop
  | a, [], b => a = b
  | a, x :: rest, b =>
    x.span = ⟨a, a + byteLength x.text⟩ ∧ x.text ≠ [] ∧ Tiles (a + byteLength x.text) rest b

/-- Pieces tile a stretch exactly if it can be cut where the first of them end. -/
theorem tiles_append {a b : Nat} {xs ys : List Piece} :
    Tiles a (xs ++ ys) b ↔ ∃ m, Tiles a xs m ∧ Tiles m ys b := by
  induction xs generalizing a with
  | nil => simp [Tiles]
  | cons x xs ih =>
    simp only [List.cons_append, Tiles, ih]
    constructor
    · rintro ⟨hs, hx, m, hxs, hys⟩
      exact ⟨m, ⟨hs, hx, hxs⟩, hys⟩
    · rintro ⟨m, ⟨hs, hx, hxs⟩, hys⟩
      exact ⟨hs, hx, m, hxs, hys⟩

/-- A tiling is as long as its text. -/
theorem Tiles.stop_eq {a b : Nat} {xs : List Piece} (h : Tiles a xs b) :
    b = a + byteLength (xs.flatMap Piece.text) := by
  induction xs generalizing a with
  | nil => simpa [Tiles] using h.symm
  | cons x xs ih =>
    rw [ih h.2.2, List.flatMap_cons, byteLength_append, Nat.add_assoc]

/-- The place of a piece is told by the text of those before it. -/
theorem Tiles.span_eq {a b : Nat} {xs ys : List Piece} {x : Piece} (h : Tiles a (xs ++ x :: ys) b) :
    x.span = ⟨a + byteLength (xs.flatMap Piece.text),
      a + byteLength (xs.flatMap Piece.text) + byteLength x.text⟩ ∧ x.text ≠ [] := by
  obtain ⟨m, hxs, hx⟩ := tiles_append.1 h
  rw [← hxs.stop_eq]
  exact ⟨hx.1, hx.2.1⟩

/-- A piece ends where the next one begins. -/
theorem Tiles.stop_eq_start {a b : Nat} {xs ys : List Piece} {x y : Piece}
    (h : Tiles a (xs ++ x :: y :: ys) b) : x.span.stop = y.span.start := by
  obtain ⟨m, -, hx⟩ := tiles_append.1 h
  rw [hx.1, hx.2.2.1]

/-- Each piece of a tiling is the text at its place. -/
theorem Tiles.slice?_eq {b : Nat} {xs : List Piece} (h : Tiles 0 xs b) {x : Piece} (hx : x ∈ xs) :
    x.span.slice? (xs.flatMap Piece.text) = some x.text := by
  obtain ⟨before, after, rfl⟩ := List.append_of_mem hx
  rw [h.span_eq.1, Nat.zero_add, List.flatMap_append, List.flatMap_cons, ← List.append_assoc]
  exact slice?_append _ _ _

/-- A tiled stretch never ends before it starts. -/
theorem Tiles.le {a b : Nat} {xs : List Piece} (h : Tiles a xs b) : a ≤ b := by
  rw [h.stop_eq]
  exact Nat.le_add_right _ _

/-- The pieces of a tiling stand between its ends, one behind the other. -/
theorem Tiles.pairwise {a b : Nat} {xs : List Piece} (h : Tiles a xs b) :
    (xs.Pairwise fun x y => x.span.stop ≤ y.span.start) ∧
      ∀ x ∈ xs, a ≤ x.span.start ∧ x.span.start < x.span.stop ∧ x.span.stop ≤ b := by
  induction xs generalizing a with
  | nil => exact ⟨.nil, fun x hx => absurd hx List.not_mem_nil⟩
  | cons x xs ih =>
    obtain ⟨hspan, hne, hxs⟩ := h
    have hpos := byteLength_pos hne
    have hle := hxs.le
    obtain ⟨hpair, hmem⟩ := ih hxs
    constructor
    · refine List.pairwise_cons.2 ⟨fun y hy => ?_, hpair⟩
      rw [hspan]
      exact (hmem y hy).1
    · intro y hy
      rcases List.mem_cons.1 hy with rfl | hy
      · rw [hspan]
        refine ⟨Nat.le_refl a, ?_, hle⟩
        show a < a + _
        omega
      · obtain ⟨hstart, hlt, hstop⟩ := hmem y hy
        exact ⟨by omega, hlt, hstop⟩

/-! ## Trivia -/

/-- A run that is taken as a whole holds only what the test accepts, and what follows fails it. -/
theorem all_of_length_takeWhile {p : Char → Bool} {u v : List Char}
    (h : ((u ++ v).takeWhile p).length = u.length) :
    (∀ c ∈ u, p c = true) ∧ ∀ c ∈ v.head?, p c = false := by
  have cut := List.append_inj (List.takeWhile_append_dropWhile (p := p) (l := u ++ v)) h
  constructor
  · rw [← cut.1]
    exact List.all_eq_true.1 List.all_takeWhile
  · intro c hc
    have hd := List.head?_dropWhile_not p (u ++ v)
    rw [cut.2, Option.mem_def.1 hc] at hd
    exact hd

/-- A blank run ends where no blank follows. -/
theorem blank_of_trivia? {u v : List Char} (h : Cursor.trivia? (u ++ v) = some (.blank, u.length)) :
    (∀ c ∈ u, isBlank c = true) ∧ ∀ c ∈ v.head?, isBlank c = false := by
  apply all_of_length_takeWhile
  unfold Cursor.trivia? at h
  split at h
  · simp at h
  · next x rest hx =>
    split at h
    · next hb =>
      simp only [Option.some.injEq, Prod.mk.injEq, true_and] at h
      rw [hx, List.takeWhile_cons_of_pos hb, List.length_cons, h]
    · split at h <;> simp at h

/-- A comment begins with a semicolon and ends with its line. -/
theorem comment_of_trivia? {u v : List Char}
    (h : Cursor.trivia? (u ++ v) = some (.comment, u.length)) :
    (∃ body, u = ';' :: body ∧ '\n' ∉ body ∧ '\r' ∉ body) ∧
      ∀ c ∈ v.head?, c = '\n' ∨ c = '\r' := by
  cases u with
  | nil =>
    have hpos := (Cursor.trivia?_pos h).1
    exact absurd hpos (Nat.lt_irrefl 0)
  | cons c body =>
    rw [List.cons_append, Cursor.trivia?] at h
    split at h
    · simp at h
    · split at h
      · next hc =>
        simp only [Option.some.injEq, Prod.mk.injEq, true_and, List.length_cons,
          Nat.add_right_cancel_iff] at h
        obtain ⟨hbody, hv⟩ := all_of_length_takeWhile h
        refine ⟨⟨body, by rw [hc], fun hn => ?_, fun hr => ?_⟩, fun d hd => ?_⟩
        · simpa using hbody _ hn
        · simpa using hbody _ hr
        · have stop := hv d hd
          simp only [Bool.and_eq_false_iff, bne_eq_false_iff_eq] at stop
          exact stop
      · simp at h

/-- `TriviaRun xs rest`: each of the trivia `xs` is what the lexer takes where it begins, and in the
text `rest` behind them no more trivia begin. -/
inductive TriviaRun : List Trivia → List Char → Prop
  | nil {rest} (h : Cursor.trivia? rest = none) : TriviaRun [] rest
  | cons {x xs rest} (hx : Cursor.trivia? (x.text ++ (xs.flatMap Trivia.text ++ rest)) =
      some (x.kind, x.text.length)) (hxs : TriviaRun xs rest) : TriviaRun (x :: xs) rest

namespace TriviaRun

variable {xs ys : List Trivia} {x : Trivia} {rest : List Char}

/-- What follows a part of the trivia is itself a run. -/
theorem drop (xs : List Trivia) (h : TriviaRun (xs ++ ys) rest) : TriviaRun ys rest := by
  induction xs with
  | nil => exact h
  | cons x xs ih =>
    cases h with
    | cons hx hxs => exact ih hxs

/-- In a run of trivia, each is the next that the cursor finds. -/
theorem trivia?_eq (xs : List Trivia) (h : TriviaRun (xs ++ x :: ys) rest) :
    Cursor.trivia? (x.text ++ (ys.flatMap Trivia.text ++ rest)) =
      some (x.kind, x.text.length) := by
  cases h.drop xs with
  | cons hx hys => exact hx

/-- Where each of the trivia stands among the others, and what the lexer takes there. -/
theorem exists_of_mem (h : TriviaRun xs rest) (hx : x ∈ xs) :
    ∃ l r, xs = l ++ x :: r ∧
      Cursor.trivia? (x.text ++ (r.flatMap Trivia.text ++ rest)) =
        some (x.kind, x.text.length) := by
  obtain ⟨l, r, rfl⟩ := List.append_of_mem hx
  exact ⟨l, r, rfl, h.trivia?_eq l⟩

/-- Behind a run of trivia none begin. -/
theorem trivia?_rest (h : TriviaRun xs rest) : Cursor.trivia? rest = none := by
  induction h with
  | nil h => exact h
  | cons _ _ ih => exact ih

/-- The text of a run is not empty. -/
theorem text_ne_nil (h : TriviaRun (x :: ys) rest) : x.text ≠ [] := by
  have hpos := (Cursor.trivia?_pos (trivia?_eq [] h)).1
  exact List.length_pos_iff.1 hpos

/-- Two runs of the same kind are never neighbours. -/
theorem kind_ne {y : Trivia} (h : TriviaRun (x :: y :: ys) rest) : x.kind ≠ y.kind := by
  intro heq
  have hx := trivia?_eq [] h
  have hy := trivia?_eq [x] h
  have hne := (drop [x] h).text_ne_nil
  obtain ⟨c, text, hc⟩ := List.exists_cons_of_ne_nil hne
  rw [List.flatMap_cons, hc] at hx
  cases hk : x.kind with
  | blank =>
    -- The second run begins with a blank, which the first would have taken.
    rw [hk] at hx
    rw [← heq, hk] at hy
    have hb := (blank_of_trivia? hy).1 c (by rw [hc]; exact List.mem_cons_self)
    have hn := (blank_of_trivia? hx).2 c (by simp)
    rw [hb] at hn
    cases hn
  | comment =>
    -- The second comment begins with a semicolon, at which the first would not have ended.
    rw [hk] at hx
    rw [← heq, hk] at hy
    obtain ⟨⟨body, hbody, -, -⟩, -⟩ := comment_of_trivia? hy
    rw [hc] at hbody
    cases hbody
    rcases (comment_of_trivia? hx).2 ';' (by simp) with h' | h' <;> exact absurd h' (by decide)

/-- Blank runs and comments alternate. -/
theorem isChain (h : TriviaRun xs rest) : xs.IsChain fun x y => x.kind ≠ y.kind := by
  induction h with
  | nil => exact .nil
  | @cons x xs rest hx hxs ih =>
    cases xs with
    | nil => exact .singleton x
    | cons y ys => exact .cons_cons (kind_ne (.cons hx hxs)) ih

end TriviaRun

/-! ## What the lexer takes -/

namespace Cursor

/-- Trivia end within the text. -/
theorem trivia?_le {text : List Char} {kind : TriviaKind} {n : Nat}
    (h : trivia? text = some (kind, n)) : n ≤ text.length := by
  unfold trivia? at h
  split at h
  · simp at h
  · next x rest =>
    have hb := (List.takeWhile_sublist isBlank (l := rest)).length_le
    have hc := (List.takeWhile_sublist (fun y => y != '\n' && y != '\r') (l := rest)).length_le
    split at h
    · simp only [Option.some.injEq, Prod.mk.injEq] at h
      rw [List.length_cons]
      omega
    · split at h
      · simp only [Option.some.injEq, Prod.mk.injEq] at h
        rw [List.length_cons]
        omega
      · simp at h

/-- Skipping trivia passes their text, and they tile its place. -/
theorem skipTrivia_run (c : Cursor) :
    c.rest = c.skipTrivia.1.flatMap Trivia.text ++ c.skipTrivia.2.rest ∧
      Tiles c.offset (c.skipTrivia.1.map Trivia.piece) c.skipTrivia.2.offset ∧
      TriviaRun c.skipTrivia.1 c.skipTrivia.2.rest := by
  fun_induction skipTrivia c with
  | case1 c h => exact ⟨rfl, rfl, .nil h⟩
  | case2 c kind n h more ih =>
    obtain ⟨hrest, htiles, hrun⟩ := ih
    have hlen : (c.rest.take n).length = n := List.length_take_of_le (trivia?_le h)
    have hcut : c.rest = c.rest.take n ++ (more.1.flatMap Trivia.text ++ more.2.rest) := by
      rw [← hrest]
      exact (List.take_append_drop n c.rest).symm
    refine ⟨?_, ⟨rfl, ?_, htiles⟩, .cons ?_ hrun⟩
    · rw [List.flatMap_cons, List.append_assoc]
      exact hcut
    · show c.rest.take n ≠ []
      rw [← List.length_pos_iff, hlen]
      exact (trivia?_pos h).1
    · show trivia? (c.rest.take n ++ _) = some (kind, (c.rest.take n).length)
      rw [← hcut, hlen, h]

end Cursor

/-- A token ends within the text. -/
theorem lexeme_le {arrows : Bool} {mode : LexMode} {text : List Char} {kind : TokenKind} {n : Nat}
    (h : lexeme arrows mode text = .ok (kind, n)) : n ≤ text.length := by
  cases text with
  | nil =>
    simp only [lexeme, Except.ok.injEq, Prod.mk.injEq] at h
    omega
  | cons c rest =>
    have hb := (List.takeWhile_sublist isNameBody (l := rest)).length_le
    rw [lexeme] at h
    repeat' split at h
    all_goals simp only [Except.ok.injEq, Prod.mk.injEq, reduceCtorEq, List.length_cons] at h ⊢
    all_goals omega

/-- A lexeme is a mark, or one character and the whole run of a name behind it. -/
theorem lexeme_shape {arrows : Bool} {mode : LexMode} {kind : TokenKind} {c : Char}
    {body v : List Char} (h : lexeme arrows mode (c :: body ++ v) = .ok (kind, body.length + 1)) :
    c ∈ ['(', ')', '\'', ';', '\\'] ∧ body = [] ∨
      (isNameBody c = true ∨ c ∈ ['(', ')', '\'', ';', '\\']) ∧
        ((body ++ v).takeWhile isNameBody).length = body.length := by
  rw [List.cons_append, lexeme] at h
  -- In the order of the tests: parentheses, an atom, a lone backslash, a variable, a type.
  split at h
  · next hc =>
    simp only [Except.ok.injEq, Prod.mk.injEq] at h
    exact Or.inl ⟨by simp [hc], List.length_eq_zero_iff.1 (by omega)⟩
  split at h
  · next hc =>
    simp only [Except.ok.injEq, Prod.mk.injEq] at h
    exact Or.inl ⟨by simp [hc], List.length_eq_zero_iff.1 (by omega)⟩
  split at h
  · next hc =>
    split at h
    · simp at h
    · simp only [Except.ok.injEq, Prod.mk.injEq] at h
      exact Or.inr ⟨Or.inr (by simp [hc]), by omega⟩
  split at h
  · next hc =>
    simp only [Bool.and_eq_true, decide_eq_true_eq] at hc
    simp only [Except.ok.injEq, Prod.mk.injEq] at h
    exact Or.inl ⟨by simp [hc.1], List.length_eq_zero_iff.1 (by omega)⟩
  split at h
  · next hc =>
    simp only [Except.ok.injEq, Prod.mk.injEq, List.length_cons] at h
    exact Or.inr ⟨Or.inl (isNameBody_of_isVariableStart hc), by omega⟩
  split at h
  · next hc =>
    simp only [Except.ok.injEq, Prod.mk.injEq, List.length_cons] at h
    exact Or.inr ⟨Or.inl (isNameBody_of_isTypeStart hc), by omega⟩
  · simp at h

/-- A lexeme holds characters of names and marks only. -/
theorem chars_of_lexeme {arrows : Bool} {mode : LexMode} {kind : TokenKind} {u v : List Char}
    (h : lexeme arrows mode (u ++ v) = .ok (kind, u.length)) :
    ∀ c ∈ u, isNameBody c = true ∨ c ∈ ['(', ')', '\'', ';', '\\'] := by
  cases u with
  | nil => simp
  | cons c body =>
    rcases lexeme_shape h with ⟨hc, rfl⟩ | ⟨hc, hbody⟩
    · intro d hd
      rw [List.mem_singleton.1 hd]
      exact Or.inr hc
    · intro d hd
      rcases List.mem_cons.1 hd with rfl | hd
      · exact hc
      · exact Or.inl ((all_of_length_takeWhile hbody).1 d hd)

/-- The input ends where no text is left. -/
theorem eq_nil_of_lexeme_end {arrows : Bool} {mode : LexMode} {text : List Char} {n : Nat}
    (h : lexeme arrows mode text = .ok (.endOfInput, n)) : text = [] := by
  cases text with
  | nil => rfl
  | cons c rest =>
    rw [lexeme] at h
    repeat' split at h
    all_goals simp only [Except.ok.injEq, Prod.mk.injEq, reduceCtorEq, false_and] at h
    exact absurd h.1 (classifyName_ne_endOfInput _ _ _)

/-- Whether a mode may give a token of this kind: comments are no tokens, and keywords have to be
allowed. -/
def LexMode.Admits (arrows : Bool) (mode : LexMode) : TokenKind → Prop
  | .keyword word => mode.allows arrows word = true
  | .comment => False
  | _ => True

/-- A name is classified as its mode allows. -/
theorem admits_classifyName (arrows : Bool) (mode : LexMode) (run : List Char) :
    mode.Admits arrows (classifyName arrows mode run) := by
  unfold classifyName
  split
  · split
    · next hw => exact hw
    · trivial
  · trivial

/-- Every token that is found is of a class that the mode admits. -/
theorem admits_of_lexeme {arrows : Bool} {mode : LexMode} {text : List Char} {kind : TokenKind}
    {n : Nat} (h : lexeme arrows mode text = .ok (kind, n)) : mode.Admits arrows kind := by
  cases text with
  | nil =>
    simp only [lexeme, Except.ok.injEq, Prod.mk.injEq] at h
    rw [← h.1]
    trivial
  | cons c rest =>
    rw [lexeme] at h
    repeat' split at h
    all_goals simp only [Except.ok.injEq, Prod.mk.injEq, reduceCtorEq] at h
    all_goals rw [← h.1]
    all_goals first | trivial | exact admits_classifyName _ _ _ | skip
    next hc => exact (Bool.and_eq_true _ _ ▸ hc).2

namespace Lexer

/-- `Took lx mode t last`: taking a token from `lx` gives `t` and leaves `last`. -/
structure Took (lx : Lexer) (mode : LexMode) (t : Token) (last : Lexer) : Prop where
  rest_eq : lx.cursor.rest = t.source ++ last.cursor.rest
  leading_tiles : Tiles lx.cursor.offset (t.leading.map Trivia.piece) t.span.start
  leading_run : TriviaRun t.leading (t.text ++ last.cursor.rest)
  span_eq : t.span = ⟨t.span.start, t.span.start + byteLength t.text⟩
  offset_eq : last.cursor.offset = t.span.stop
  lexeme_eq : lexeme lx.arrows mode (t.text ++ last.cursor.rest) = .ok (t.kind, t.text.length)

theorem took_of_next {lx last : Lexer} {mode : LexMode} {t : Token}
    (h : lx.next mode = (.ok t, last)) : Took lx mode t last := by
  obtain ⟨hrest, htiles, hrun⟩ := lx.cursor.skipTrivia_run
  unfold next at h
  simp only at h
  split at h
  · simp at h
  · next kind n hl =>
    simp only [Prod.mk.injEq, Except.ok.injEq] at h
    obtain ⟨rfl, rfl⟩ := h
    have hlen := List.length_take_of_le (lexeme_le hl)
    have hcut := List.take_append_drop n lx.cursor.skipTrivia.2.rest
    refine ⟨?_, htiles, ?_, rfl, rfl, ?_⟩
    · show _ = (_ ++ _) ++ List.drop n _
      rw [List.append_assoc, hcut]
      exact hrest
    · show TriviaRun _ (_ ++ List.drop n _)
      rw [hcut]
      exact hrun
    · show lexeme _ _ (_ ++ List.drop n _) = .ok (kind, (List.take n _).length)
      rw [hcut, hlen, hl]

namespace Took

variable {lx last : Lexer} {mode : LexMode} {t : Token}

/-- No token holds a blank. -/
theorem blank_free (h : Took lx mode t last) : ∀ c ∈ t.text, isBlank c = false := by
  intro c hc
  rw [Bool.eq_false_iff]
  intro hb
  rcases chars_of_lexeme h.lexeme_eq c hc with hn | hm
  · rw [isNameBody_blank hb] at hn
    cases hn
  · simp only [List.mem_cons, List.not_mem_nil, or_false] at hm
    rcases hm with rfl | rfl | rfl | rfl | rfl <;> exact absurd hb (by decide)

/-- Only the end of the input has no text. -/
theorem text_ne_nil (h : Took lx mode t last) (hk : t.kind ≠ .endOfInput) : t.text ≠ [] :=
  List.length_pos_iff.1 (lexeme_pos h.lexeme_eq hk).1

/-- A token and the trivia before it tile what is taken. -/
theorem tiles (h : Took lx mode t last) (hk : t.kind ≠ .endOfInput) :
    Tiles lx.cursor.offset t.pieces last.cursor.offset := by
  refine tiles_append.2 ⟨t.span.start, h.leading_tiles, h.span_eq, h.text_ne_nil hk, ?_⟩
  rw [h.offset_eq, h.span_eq]
  rfl

/-- The token at the end of the input is empty and stands where no text is left. -/
theorem end_of_kind (h : Took lx mode t last) (hk : t.kind = .endOfInput) :
    t.text = [] ∧ last.cursor.rest = [] := by
  have hl := h.lexeme_eq
  rw [hk] at hl
  exact List.append_eq_nil_iff.1 (eq_nil_of_lexeme_end hl)

end Took

/-! ## What a scan takes -/

namespace Scan

variable {s : Schedule} {lx last : Lexer} {ts : List Token}

/-- The text ahead of a scan begins with the sources of its tokens. -/
theorem rest_eq (h : Scan s lx ts last) :
    lx.cursor.rest = ts.flatMap Token.source ++ last.cursor.rest := by
  induction h with
  | nil => rfl
  | cons ht _ _ ih =>
    rw [List.flatMap_cons, List.append_assoc, ← ih]
    exact (took_of_next ht).rest_eq

/-- The pieces of the tokens of a scan tile the text that it passes. -/
theorem tiles (h : Scan s lx ts last) :
    Tiles lx.cursor.offset (ts.flatMap Token.pieces) last.cursor.offset := by
  induction h with
  | nil => rfl
  | cons ht hk _ ih =>
    rw [List.flatMap_cons]
    exact tiles_append.2 ⟨_, (took_of_next ht).tiles hk, ih⟩

/-- A scan moves on by the bytes of its tokens. -/
theorem offset_eq (h : Scan s lx ts last) :
    last.cursor.offset = lx.cursor.offset + byteLength (ts.flatMap Token.source) := by
  rw [h.tiles.stop_eq, List.flatMap_assoc]
  simp only [Token.flatMap_pieces]

/-- A scan can be cut at each of its tokens. -/
theorem cut {before after : List Token} {t : Token} (h : Scan s lx (before ++ t :: after) last) :
    ∃ here next, Scan s lx before here ∧ t.kind ≠ .endOfInput ∧
      Took here (s.afterAll before).mode t next ∧
      Scan (s.afterAll (before ++ [t])) next after last := by
  obtain ⟨here, hbefore, hrest⟩ := h.exists_split
  cases hrest with
  | cons ht hk hafter =>
    rw [← Schedule.afterAll_concat] at hafter
    exact ⟨here, _, hbefore, hk, took_of_next ht, hafter⟩

/-- Every token of a scan has been taken behind others. -/
theorem exists_took {t : Token} (h : Scan s lx ts last) (ht : t ∈ ts) :
    ∃ before here next, Scan s lx before here ∧ t.kind ≠ .endOfInput ∧
      Took here (s.afterAll before).mode t next := by
  obtain ⟨before, after, rfl⟩ := List.append_of_mem ht
  obtain ⟨here, next, hbefore, hk, took, -⟩ := h.cut
  exact ⟨before, here, next, hbefore, hk, took⟩

end Scan

end Lexer

/-- What holds before a scan is read, and after each of its tokens if it did before, holds in the
end. -/
theorem Parser.readAll_induction {maxDepth : Nat} {lx last : Lexer} {ts : List Token} {q : Parser}
    {I : List Token → Parser → Prop} (hts : Lexer.Scan .initial lx ts last)
    (hq : (initial maxDepth).readAll ts = .ok q) (nil : I [] (initial maxDepth))
    (concat : ∀ {before t after here next p r}, ts = before ++ t :: after →
      Lexer.Scan .initial lx before here → (initial maxDepth).readAll before = .ok p →
      Lexer.Took here p.mode t next → t.kind ≠ .endOfInput → Step p t r → I before p →
      I (before ++ [t]) r) : I ts q := by
  -- Every beginning of the scan is one itself.
  suffices reads : ∀ before after q, ts = before ++ after →
      (initial maxDepth).readAll before = .ok q → I before q from reads ts [] q (by simp) hq
  intro before
  induction before using List.reverseRecOn with
  | nil =>
    intro after q _ hq
    cases hq
    exact nil
  | append_singleton before t ih =>
    intro after r hcut hr
    obtain ⟨p, hp, hstep⟩ := exists_step_of_readAll_concat hr
    rw [List.append_assoc, List.singleton_append] at hcut
    obtain ⟨here, next, hbefore, hk, took, -⟩ := (hcut ▸ hts).cut
    rw [mode_of_readAll hp] at took
    exact concat hcut hbefore hp took hk hstep (ih (t :: after) p hcut hp)

/-- The token at the end of `source`, behind the trivia `trailing`. -/
def Token.atEnd (source : List Char) (trailing : List Trivia) : Token :=
  ⟨.endOfInput, [], .point (byteLength source), trailing⟩

namespace Lexer

variable {arrows : Bool} {source : List Char} {s : Schedule} {here last : Lexer} {ts : List Token}
  {mode : LexMode} {t : Token}

/-- The cursor behind a scan of a whole source counts the bytes of its tokens. -/
theorem Scan.offset_ofSource (hts : Scan s (.ofSource arrows source) ts here) :
    here.cursor.offset = byteLength (ts.flatMap Token.source) := by
  rw [hts.offset_eq]
  exact Nat.zero_add _

/-- A place behind a scan of a whole source and some trivia counts the bytes of both. -/
theorem Scan.place_eq {xs : List Trivia} {o : Nat} (hts : Scan s (.ofSource arrows source) ts here)
    (h : Tiles here.cursor.offset (xs.map Trivia.piece) o) :
    o = byteLength (ts.flatMap Token.source ++ xs.flatMap Trivia.text) := by
  rw [h.stop_eq, hts.offset_ofSource, Trivia.flatMap_piece, byteLength_append]

/-- A scan of a whole source stops where the source does. -/
theorem eq_atEnd (hts : Scan s (.ofSource arrows source) ts here) (h : Took here mode t last)
    (hk : t.kind = .endOfInput) : t = .atEnd source t.leading := by
  obtain ⟨htext, hrest⟩ := h.end_of_kind hk
  have hsource : source = ts.flatMap Token.source ++ t.leading.flatMap Trivia.text := by
    have hhere := h.rest_eq
    rw [Token.source, htext, hrest, List.append_nil, List.append_nil] at hhere
    rw [← hhere]
    exact hts.rest_eq
  have hstart : t.span.start = byteLength source := by
    rw [hts.place_eq h.leading_tiles, ← hsource]
  have hspan := h.span_eq
  rw [htext, hstart] at hspan
  cases t
  simp_all [Token.atEnd, Span.point]

end Lexer

end PieSyntax
