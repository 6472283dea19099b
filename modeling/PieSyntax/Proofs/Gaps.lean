/-
# The text between tokens

A gap is text that separates tokens: blanks, and comments that end with their line.  Main statements:
the token behind a gap is the one that stands there without it (`Cursor.skipTrivia_gap`), a lexeme
does not depend on text behind it that continues no name (`lexeme_append`), and lexing that does not
come to the end of a text goes the same way when the text goes on (`Lexer.next_append`).
-/
import Mathlib.Data.List.TakeWhile
import PieSyntax.Proofs.Pieces

namespace PieSyntax

open Text

/-! ## Runs -/

/-- A run ends at the latest where the text goes on with a character that is not of its class. -/
theorem takeWhile_append_of_head {p : Char → Bool} (u : List Char) {v : List Char}
    (hv : ∀ c ∈ v.head?, p c = false) : (u ++ v).takeWhile p = u.takeWhile p := by
  rw [List.takeWhile_append]
  split
  · next h =>
    have hu : u.takeWhile p = u := (List.takeWhile_prefix p).eq_of_length h
    cases v with
    | nil => rw [List.takeWhile_nil, List.append_nil, hu]
    | cons c v => rw [List.takeWhile_cons_of_neg (by simp [hv c rfl]), List.append_nil, hu]
  · rfl

/-- A run that ends within a text is not changed by what follows the text. -/
theorem takeWhile_append_of_lt {p : Char → Bool} {u : List Char} (v : List Char)
    (h : (u.takeWhile p).length < u.length) : (u ++ v).takeWhile p = u.takeWhile p := by
  rw [List.takeWhile_append, if_neg (Nat.ne_of_lt h)]

/-! ## Lexemes -/

/-- Text behind a lexeme that continues no name does not matter. -/
theorem lexeme_append {arrows : Bool} {mode : LexMode} {u v : List Char} (hu : u ≠ [])
    (hv : ∀ c ∈ v.head?, isNameBody c = false) :
    lexeme arrows mode (u ++ v) = lexeme arrows mode u := by
  obtain ⟨c, rest, rfl⟩ := List.exists_cons_of_ne_nil hu
  rw [List.cons_append, lexeme, lexeme, takeWhile_append_of_head rest hv]

/-- A lexeme taken off the front of a text is the lexeme of its own characters. -/
theorem lexeme_of_append {arrows : Bool} {mode : LexMode} {kind : TokenKind} {u v : List Char}
    (hu : u ≠ []) (h : lexeme arrows mode (u ++ v) = .ok (kind, u.length)) :
    lexeme arrows mode u = .ok (kind, u.length) := by
  obtain ⟨c, body, rfl⟩ := List.exists_cons_of_ne_nil hu
  rcases lexeme_shape h with ⟨hc, rfl⟩ | ⟨-, hlen⟩
  · -- A mark is known by itself; a quote is none, for a name has to follow it.
    simp only [List.mem_cons, List.not_mem_nil, or_false] at hc
    rcases hc with rfl | rfl | rfl | rfl | rfl
    · exact h
    · exact h
    · -- A quote is no lexeme, for a name has to follow it.
      rw [List.singleton_append, lexeme, if_neg (by decide), if_neg (by decide), if_pos rfl] at h
      split at h
      · cases h
      · next run hrun =>
        simp only [Except.ok.injEq, Prod.mk.injEq, List.length_singleton, Nat.add_eq_right,
          List.length_eq_zero_iff] at h
        exact absurd h.2 hrun
    · exact h
    · cases mode <;> exact h
  · -- The run of a name ends where the lexeme ends, so that it is the same without `v`.
    obtain ⟨-, hv⟩ := all_of_length_takeWhile hlen
    rw [List.cons_append, lexeme, takeWhile_append_of_head body hv] at h
    rw [lexeme]
    exact h

/-! ## Keywords -/

/-- Where a keyword may stand, each of its spellings is one. -/
theorem lexeme_of_spelling {arrows : Bool} {mode : LexMode} {word : Keyword} {u : List Char}
    (hu : u ∈ word.spellings) (hm : mode.allows arrows word = true) :
    lexeme arrows mode u = .ok (.keyword word, u.length) := by
  have hall : ∀ arrows, ∀ mode ∈ [LexMode.plain, .head, .topLevelHead], ∀ word ∈ Keyword.all,
      ∀ u ∈ word.spellings, mode.allows arrows word = true →
        lexeme arrows mode u = .ok (.keyword word, u.length) := by decide
  exact hall arrows mode (by cases mode <;> decide) word (by cases word <;> decide) u hu hm

/-- A keyword is written in one of its spellings. -/
theorem mem_spellings_of_lexeme {arrows : Bool} {mode : LexMode} {word : Keyword} {u v : List Char}
    (h : lexeme arrows mode (u ++ v) = .ok (.keyword word, u.length)) : u ∈ word.spellings := by
  cases u with
  | nil =>
    have hpos := (lexeme_pos h (by simp)).1
    exact absurd hpos (Nat.lt_irrefl 0)
  | cons c body =>
    have hown := lexeme_of_append (List.cons_ne_nil c body) h
    -- Two of the ways to take a token give a keyword: the lone backslash and the run of a name.
    rw [lexeme] at hown
    split at hown
    · cases hown
    split at hown
    · cases hown
    split at hown
    · split at hown <;> cases hown
    split at hown
    · next hc =>
      simp only [Bool.and_eq_true, decide_eq_true_eq] at hc
      simp only [Except.ok.injEq, Prod.mk.injEq, TokenKind.keyword.injEq, List.length_cons] at hown
      obtain ⟨rfl, hlen⟩ := hown
      obtain rfl := List.length_eq_zero_iff.1 (show body.length = 0 by omega)
      rw [hc.1]
      decide
    simp only at hown
    split at hown
    · simp only [Except.ok.injEq, Prod.mk.injEq, List.length_cons, Nat.add_right_cancel_iff] at hown
      obtain ⟨hclass, hlen⟩ := hown
      have hrun := (List.takeWhile_prefix Text.isNameBody).eq_of_length hlen
      rw [hrun, classifyName] at hclass
      split at hclass
      · next found hfound =>
        split at hclass
        · cases hclass
          exact Keyword.ofSpelling?_eq_some_iff.1 hfound
        · cases hclass
      · cases hclass
    · split at hown <;> cases hown

namespace Lexer.Took

variable {lx last : Lexer} {mode : LexMode} {t : Token} {word : Keyword}

theorem text_mem_spellings (h : Took lx mode t last) (hk : t.kind = .keyword word) :
    t.text ∈ word.spellings :=
  mem_spellings_of_lexeme (by rw [← hk]; exact h.lexeme_eq)

/-- A token with the spelling of a keyword is that keyword, where the mode allows it. -/
theorem kind_of_spelling (h : Took lx mode t last) (hk : t.kind ≠ .endOfInput)
    (ht : t.text ∈ word.spellings) (hm : mode.allows lx.arrows word = true) :
    t.kind = .keyword word := by
  have hown := lexeme_of_append (h.text_ne_nil hk) h.lexeme_eq
  rw [lexeme_of_spelling ht hm] at hown
  simp only [Except.ok.injEq, Prod.mk.injEq] at hown
  exact hown.1.symm

end Lexer.Took

/-! ## Trivia -/

namespace Cursor

/-- Trivia that end within a text are not changed by what follows the text. -/
theorem trivia?_append {u : List Char} (v : List Char) {kind : TriviaKind} {n : Nat}
    (h : trivia? u = some (kind, n)) (hn : n < u.length) : trivia? (u ++ v) = some (kind, n) := by
  cases u with
  | nil => cases h
  | cons x rest =>
    rw [trivia?] at h
    rw [List.cons_append, trivia?]
    rw [List.length_cons] at hn
    split at h
    · next hx =>
      obtain ⟨-, rfl⟩ := Prod.mk.inj (Option.some.inj h)
      rw [if_pos hx, takeWhile_append_of_lt v (by omega)]
      exact h
    · next hx =>
      rw [if_neg hx]
      split at h
      · next hs =>
        obtain ⟨-, rfl⟩ := Prod.mk.inj (Option.some.inj h)
        rw [if_pos hs, takeWhile_append_of_lt v (by omega)]
        exact h
      · cases h

/-- Whether trivia begin a text is told by its first character. -/
theorem trivia?_eq_none_iff {u : List Char} :
    trivia? u = none ↔ ∀ c ∈ u.head?, isBlank c = false ∧ c ≠ ';' := by
  cases u with
  | nil => simp [trivia?]
  | cons x rest =>
    rw [trivia?]
    split
    · next hx => simp [hx]
    · next hx =>
      split
      · next hs => simp [hs]
      · next hs => simp [hx, hs]

/-- Where no trivia begin, none begin when more text follows. -/
theorem trivia?_append_of_none {u : List Char} (v : List Char) (hu : u ≠ [])
    (h : trivia? u = none) : trivia? (u ++ v) = none := by
  rw [trivia?_eq_none_iff] at h ⊢
  rwa [List.head?_append_of_ne_nil _ hu]

/-- The cursor in the text that goes on with `v`. -/
def append (c : Cursor) (v : List Char) : Cursor := { c with rest := c.rest ++ v }

/-- Skipping characters leaves the text behind them as it is. -/
theorem skip_append {c : Cursor} {n : Nat} (v : List Char) (hn : n ≤ c.rest.length) :
    (c.append v).skip n = (c.skip n).append v := by
  simp only [skip, append, List.take_append_of_le_length hn, List.drop_append_of_le_length hn]

theorem spanOf_append {c : Cursor} {n : Nat} (v : List Char) (hn : n ≤ c.rest.length) :
    (c.append v).spanOf n = c.spanOf n := by
  rw [spanOf, skip_append v hn]
  rfl

/-- Trivia that do not come to the end of a text are not changed by what follows the text. -/
theorem skipTrivia_append {c : Cursor} (v : List Char) (h : c.skipTrivia.2.rest ≠ []) :
    (c.append v).skipTrivia = (c.skipTrivia.1, c.skipTrivia.2.append v) := by
  fun_induction skipTrivia c with
  | case1 c hnone => exact skipTrivia_of_none (trivia?_append_of_none v h hnone)
  | case2 c kind n hsome more ih =>
    have hle := trivia?_le hsome
    have hlt : n < c.rest.length := by
      -- If these trivia were the last of the text, nothing would be left behind them.
      by_contra hge
      have hnil : (c.skip n).rest = [] := List.drop_eq_nil_of_le (Nat.not_lt.1 hge)
      have hmore := rest_skipTrivia_le (c.skip n)
      rw [hnil] at hmore
      exact h (List.length_eq_zero_iff.1 (Nat.le_zero.1 hmore))
    have htrivia : trivia? (c.append v).rest = some (kind, n) := trivia?_append v hsome hlt
    rw [skipTrivia_of_some htrivia, skip_append v hle, ih h, spanOf_append v hle]
    simp only [append, List.take_append_of_le_length hle]
    rfl

/-- A fault is blamed on the same place when more text follows. -/
theorem at_append {c : Cursor} (v : List Char) (hc : c.rest ≠ []) (fault : LexFault) :
    fault.at (c.append v) = fault.at c := by
  have hspan := spanOf_append v (List.length_pos_iff.2 hc)
  cases fault <;> simp only [LexFault.at, hspan]

end Cursor

namespace Lexer

/-- The lexer in the text that goes on with `v`. -/
def append (lx : Lexer) (v : List Char) : Lexer := { lx with cursor := lx.cursor.append v }

/-- Lexing that does not come to the end of a text goes the same way when the text goes on. -/
theorem next_append {lx : Lexer} {mode : LexMode} {v : List Char}
    (h : lx.cursor.skipTrivia.2.rest ≠ []) (hv : ∀ c ∈ v.head?, isNameBody c = false) :
    (lx.append v).next mode = ((lx.next mode).1, (lx.next mode).2.append v) := by
  have htrivia : (lx.append v).cursor.skipTrivia = _ := Cursor.skipTrivia_append v h
  have hlexeme : lexeme (lx.append v).arrows mode (lx.cursor.skipTrivia.2.append v).rest =
      lexeme lx.arrows mode lx.cursor.skipTrivia.2.rest := lexeme_append h hv
  simp only [next, htrivia, hlexeme]
  cases hl : lexeme lx.arrows mode lx.cursor.skipTrivia.2.rest with
  | error fault =>
    simp only [Cursor.at_append v h]
    rfl
  | ok result =>
    obtain ⟨kind, n⟩ := result
    have hle := lexeme_le hl
    have htake : (lx.cursor.skipTrivia.2.append v).rest.take n = _ :=
      List.take_append_of_le_length hle
    simp only [htake, Cursor.spanOf_append v hle, Cursor.skip_append v hle]
    rfl

/-- Where only trivia are left, the input ends. -/
theorem exists_end_of_rest_eq_nil {lx : Lexer} (mode : LexMode)
    (h : lx.cursor.skipTrivia.2.rest = []) :
    ∃ t last, lx.next mode = (.ok t, last) ∧ t.kind = .endOfInput := by
  refine ⟨⟨.endOfInput, [], lx.cursor.skipTrivia.2.spanOf 0, lx.cursor.skipTrivia.1⟩,
    { lx with cursor := lx.cursor.skipTrivia.2.skip 0 }, ?_, rfl⟩
  simp only [next, h, lexeme]
  rfl

/-- What is taken before the end of a text, a token or an error, is taken when the text goes on. -/
theorem next_append_of_ne_end {lx last : Lexer} {mode : LexMode} {v : List Char}
    {r : Except LexError Token} (h : lx.next mode = (r, last))
    (hr : ∀ t, r = .ok t → t.kind ≠ .endOfInput) (hv : ∀ c ∈ v.head?, isNameBody c = false) :
    (lx.append v).next mode = (r, last.append v) := by
  have hrest : lx.cursor.skipTrivia.2.rest ≠ [] := by
    intro hnil
    obtain ⟨t, last', ht, hk⟩ := exists_end_of_rest_eq_nil mode hnil
    rw [h] at ht
    exact hr t (Prod.mk.inj ht).1 hk
  rw [next_append hrest hv, h]

/-- A scan is a scan of every text that goes on behind it. -/
theorem Scan.append {s : Schedule} {lx last : Lexer} {ts : List Token} {v : List Char}
    (h : Scan s lx ts last) (hv : ∀ c ∈ v.head?, isNameBody c = false) :
    Scan s (lx.append v) ts (last.append v) := by
  induction h with
  | nil => exact .nil
  | cons ht hk _ ih =>
    refine .cons (next_append_of_ne_end ht ?_ hv) hk ih
    intro t heq
    rw [← Except.ok.inj heq]
    exact hk

end Lexer

/-! ## Gaps -/

namespace Text

/-- A character that ends a line, and a comment with it. -/
def EndsLine (c : Char) : Prop := c = '\n' ∨ c = '\r'

/-- The characters that end a line are blank. -/
theorem isBlank_of_endsLine {c : Char} (h : EndsLine c) : isBlank c = true := by
  rcases h with rfl | rfl <;> decide

/-- A line feed continues no name. -/
theorem isNameBody_lineFeed {w : List Char} : ∀ c ∈ ('\n' :: w).head?, isNameBody c = false := by
  rintro c hc
  cases hc
  exact isNameBody_blank (isBlank_of_endsLine (Or.inl rfl))

/-- What may end a line of input: a line feed, or one with a carriage return before it. -/
def IsLineEnd (w : List Char) : Prop := w = ['\n'] ∨ w = ['\r', '\n']

theorem isLineEnd_lineFeed : IsLineEnd ['\n'] := Or.inl rfl

theorem IsLineEnd.endsLine {w : List Char} (h : IsLineEnd w) : ∀ c ∈ w, EndsLine c := by
  rcases h with rfl | rfl <;> simp [EndsLine]

theorem IsLineEnd.blank {w : List Char} (h : IsLineEnd w) : ∀ c ∈ w, isBlank c = true :=
  fun c hc => isBlank_of_endsLine (h.endsLine c hc)

/-- Text that separates tokens: blanks, and comments that end with their line. -/
inductive IsGap : List Char → Prop
  | nil : IsGap []
  | blank {c w} (hc : isBlank c = true) (hw : IsGap w) : IsGap (c :: w)
  | comment {body e w} (hbody : ∀ c ∈ body, ¬ EndsLine c) (he : EndsLine e) (hw : IsGap w) :
      IsGap (';' :: (body ++ e :: w))

/-- Text that may end a source: a gap in which the last comment need not end with its line. -/
inductive IsLastGap : List Char → Prop
  | nil : IsLastGap []
  | blank {c w} (hc : isBlank c = true) (hw : IsLastGap w) : IsLastGap (c :: w)
  | comment {body e w} (hbody : ∀ c ∈ body, ¬ EndsLine c) (he : EndsLine e) (hw : IsLastGap w) :
      IsLastGap (';' :: (body ++ e :: w))
  | last {body} (hbody : ∀ c ∈ body, ¬ EndsLine c) : IsLastGap (';' :: body)

theorem IsGap.of_blanks {w : List Char} (h : ∀ c ∈ w, isBlank c = true) : IsGap w := by
  induction w with
  | nil => exact .nil
  | cons c w ih =>
    exact .blank (h c List.mem_cons_self) (ih fun d hd => h d (List.mem_cons_of_mem c hd))

/-- One space separates tokens. -/
theorem isGap_space : IsGap [' '] := .of_blanks (List.forall_mem_singleton.2 (by decide))

/-- A gap between tokens may stand at the end too. -/
theorem IsGap.isLastGap {w : List Char} (h : IsGap w) : IsLastGap w := by
  induction h with
  | nil => exact .nil
  | blank hc _ ih => exact .blank hc ih
  | comment hbody he _ ih => exact .comment hbody he ih

/-- A line feed ends the last comment. -/
theorem IsLastGap.append_lineFeed {w : List Char} (h : IsLastGap w) : IsGap (w ++ ['\n']) := by
  have hn : EndsLine '\n' := Or.inl rfl
  induction h with
  | nil => exact .blank (isBlank_of_endsLine hn) .nil
  | blank hc _ ih => exact .blank hc ih
  | comment hbody he _ ih =>
    rw [List.cons_append, List.append_assoc]
    exact .comment hbody he ih
  | last hbody => exact .comment hbody hn .nil

/-- Without its first blank, what ends a text still ends one. -/
theorem IsLastGap.of_blank {c : Char} {w : List Char} (h : IsLastGap (c :: w))
    (hc : isBlank c = true) : IsLastGap w := by
  cases h with
  | blank _ hw => exact hw
  | comment | last => exact absurd hc (by decide)

/-- Blanks may come before what ends a text. -/
theorem IsLastGap.blanks_append {u w : List Char} (hu : ∀ c ∈ u, isBlank c = true)
    (hw : IsLastGap w) : IsLastGap (u ++ w) := by
  induction u with
  | nil => exact hw
  | cons c u ih =>
    refine .blank (hu c List.mem_cons_self) (ih ?_)
    exact fun d hd => hu d (List.mem_cons_of_mem c hd)

/-- A gap behind the end of a line does not run into the last comment. -/
theorem IsLastGap.append {u w : List Char} (hu : IsLastGap u) (hw : IsGap w)
    (hfirst : ∀ c ∈ w.head?, EndsLine c) : IsLastGap (u ++ w) := by
  induction hu with
  | nil => exact hw.isLastGap
  | blank hc _ ih => exact .blank hc ih
  | comment hbody he _ ih =>
    rw [List.cons_append, List.append_assoc]
    exact .comment hbody he ih
  | last hbody =>
    cases w with
    | nil =>
      rw [List.append_nil]
      exact .last hbody
    | cons e w =>
      have he : EndsLine e := hfirst e rfl
      exact .comment hbody he (hw.isLastGap.of_blank (isBlank_of_endsLine he))

/-- A gap does not continue a name. -/
theorem IsLastGap.head {w : List Char} (h : IsLastGap w) :
    ∀ c ∈ w.head?, isNameBody c = false := by
  intro c hc
  cases h with
  | nil => cases hc
  | blank hb _ =>
    cases hc
    exact isNameBody_blank hb
  | comment | last =>
    cases hc
    exact isNameBody_mark (by decide)

end Text

/-- Trivia are a gap, in which the last comment ends with its line only if more blanks follow. -/
theorem TriviaRun.isLastGap {xs : List Trivia} {rest : List Char} (h : TriviaRun xs rest) :
    IsLastGap (xs.flatMap Trivia.text) := by
  induction h with
  | nil => exact .nil
  | @cons x xs rest hx hxs ih =>
    rw [List.flatMap_cons]
    cases hk : x.kind with
    | blank =>
      rw [hk] at hx
      exact .blanks_append (blank_of_trivia? hx).1 ih
    | comment =>
      rw [hk] at hx
      obtain ⟨⟨body, hbody, hn, hr⟩, hend⟩ := comment_of_trivia? hx
      have hline : ∀ c ∈ body, ¬ EndsLine c := by
        rintro c hc (rfl | rfl)
        · exact hn hc
        · exact hr hc
      rw [hbody]
      cases hw : xs.flatMap Trivia.text with
      | nil =>
        rw [List.append_nil]
        exact .last hline
      | cons e w =>
        rw [hw] at hend ih
        have he : EndsLine e := hend e rfl
        exact .comment hline he (ih.of_blank (isBlank_of_endsLine he))

namespace Cursor

theorem skip_succ (o : Nat) (x : Char) (rest : List Char) (n : Nat) :
    skip ⟨o, x :: rest⟩ (n + 1) = skip ⟨o + x.utf8Size, rest⟩ n := by
  simp only [skip, List.take_succ_cons, List.drop_succ_cons, byteLength_cons, Nat.add_assoc]

/-- A blank can be passed by itself. -/
theorem skipTrivia_blank {x : Char} (hx : isBlank x = true) (o : Nat) (rest : List Char) :
    (skipTrivia ⟨o, x :: rest⟩).2 = (skipTrivia ⟨o + x.utf8Size, rest⟩).2 := by
  have hfirst : trivia? (x :: rest) = some (.blank, (rest.takeWhile isBlank).length + 1) := by
    rw [trivia?, if_pos hx]
  rw [skipTrivia_of_some (c := ⟨o, x :: rest⟩) hfirst, skip_succ]
  -- If another blank follows, both sides pass the rest of the run at once.
  rcases rest with _ | ⟨y, rest⟩
  · rfl
  · cases hy : isBlank y with
    | false =>
      rw [List.takeWhile_cons_of_neg (by simp [hy])]
      rfl
    | true =>
      have hsecond : trivia? (y :: rest) = some (.blank, ((y :: rest).takeWhile isBlank).length) := by
        rw [trivia?, if_pos hy, List.takeWhile_cons_of_pos hy, List.length_cons]
      rw [skipTrivia_of_some (c := ⟨o + x.utf8Size, y :: rest⟩) hsecond]

/-- A comment without an end of line runs to the end of its text. -/
theorem takeWhile_of_not_endsLine {body : List Char} (h : ∀ c ∈ body, ¬ EndsLine c) :
    body.takeWhile (fun y => y != '\n' && y != '\r') = body := by
  rw [List.takeWhile_eq_self_iff]
  intro c hc
  have hne := h c hc
  rw [EndsLine, not_or] at hne
  simp [hne.1, hne.2]

/-- A comment that ends with its line can be passed by itself. -/
theorem skipTrivia_comment {body : List Char} {e : Char} (hbody : ∀ c ∈ body, ¬ EndsLine c)
    (he : EndsLine e) (o : Nat) (rest : List Char) :
    (skipTrivia ⟨o, ';' :: (body ++ e :: rest)⟩).2 =
      (skipTrivia ⟨o + byteLength (';' :: body), e :: rest⟩).2 := by
  have hrun : (body ++ e :: rest).takeWhile (fun y => y != '\n' && y != '\r') = body := by
    have hstop : (e != '\n' && e != '\r') = false := by
      rcases he with rfl | rfl <;> decide
    rw [takeWhile_append_of_head body (by simpa using hstop), takeWhile_of_not_endsLine hbody]
  have htrivia : trivia? (';' :: (body ++ e :: rest)) = some (.comment, body.length + 1) := by
    rw [trivia?, if_neg (by decide), if_pos rfl, hrun]
  rw [skipTrivia_of_some (c := ⟨o, ';' :: (body ++ e :: rest)⟩) htrivia]
  simp only [skip, List.take_succ_cons, List.drop_succ_cons, List.take_left, List.drop_left]

/-- **Gaps.**  The token behind a gap is the one that stands there without it. -/
theorem skipTrivia_gap {w : List Char} (h : IsGap w) (o : Nat) (rest : List Char) :
    (skipTrivia ⟨o, w ++ rest⟩).2 = (skipTrivia ⟨o + byteLength w, rest⟩).2 := by
  induction h generalizing o with
  | nil => rfl
  | blank hc _ ih =>
    rw [List.cons_append, skipTrivia_blank hc, ih, byteLength_cons, Nat.add_assoc]
  | @comment body e w hbody he _ ih =>
    rw [List.cons_append, List.append_assoc, List.cons_append, skipTrivia_comment hbody he,
      skipTrivia_blank (isBlank_of_endsLine he), ih]
    simp only [byteLength_cons, byteLength_append, Nat.add_assoc]

/-- Skipping the trivia at the end of a text leaves nothing. -/
theorem rest_skipTrivia_lastGap {w : List Char} (h : IsLastGap w) (o : Nat) :
    (skipTrivia ⟨o, w⟩).2.rest = [] := by
  induction h generalizing o with
  | nil => rw [skipTrivia_of_none rfl]
  | blank hc _ ih => rw [skipTrivia_blank hc, ih]
  | comment hbody he _ ih =>
    rw [skipTrivia_comment hbody he, skipTrivia_blank (isBlank_of_endsLine he), ih]
  | @last body hbody =>
    have htrivia : trivia? (';' :: body) = some (.comment, body.length + 1) := by
      rw [trivia?, if_neg (by decide), if_pos rfl, takeWhile_of_not_endsLine hbody]
    rw [skipTrivia_of_some (c := ⟨o, ';' :: body⟩) htrivia, skip_succ, skip, List.drop_length,
      skipTrivia_of_none rfl]

end Cursor

/-- The token that a lexeme behind a gap makes. -/
theorem Lexer.exists_next_of_gap {arrows : Bool} {mode : LexMode} {kind : TokenKind}
    {w u text : List Char} (hw : IsGap w)
    (hu : lexeme arrows mode (u ++ text) = .ok (kind, u.length))
    (htrivia : Cursor.trivia? (u ++ text) = none) (o : Nat) :
    ∃ t o', next ⟨arrows, ⟨o, w ++ (u ++ text)⟩⟩ mode = (.ok t, ⟨arrows, ⟨o', text⟩⟩) ∧
      t.kind = kind ∧ t.text = u := by
  have hcursor : (Cursor.skipTrivia ⟨o, w ++ (u ++ text)⟩).2 = ⟨o + byteLength w, u ++ text⟩ := by
    rw [Cursor.skipTrivia_gap hw, Cursor.skipTrivia_of_none htrivia]
  simp only [next, hcursor, hu, Cursor.skip, List.take_left, List.drop_left]
  exact ⟨_, _, rfl, rfl, rfl⟩

/-- Where only a last gap is left, the input ends. -/
theorem Lexer.exists_end_of_lastGap {lx : Lexer} (mode : LexMode) (h : IsLastGap lx.cursor.rest) :
    ∃ t last, lx.next mode = (.ok t, last) ∧ t.kind = .endOfInput :=
  exists_end_of_rest_eq_nil mode (Cursor.rest_skipTrivia_lastGap h lx.cursor.offset)

/-- A source is lexed if nothing but a last gap follows the tokens of a scan. -/
theorem Lexer.Scan.exists_tokenize {arrows : Bool} {source : List Char} {ts : List Token}
    {here : Lexer} (h : Scan .initial (.ofSource arrows source) ts here)
    (hw : IsLastGap here.cursor.rest) :
    ∃ t, tokenize arrows source = .ok (ts ++ [t]) ∧ t.kind = .endOfInput := by
  obtain ⟨t, last, ht, hk⟩ := exists_end_of_lastGap (Schedule.initial.afterAll ts).mode hw
  exact ⟨t, h.tokenize_eq ht hk, hk⟩

end PieSyntax
