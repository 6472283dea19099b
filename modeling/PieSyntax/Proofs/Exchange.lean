/-
# Texts that begin alike

What has been lexed does not depend on the text behind it, as long as the last word does not go on
there: the text may be cut off or another one put in its place.  Main statements: a token and the
trivia before it are taken from every text that begins with them (`Lexer.next_exchange`), and so are
the tokens of a scan (`Lexer.Scan.exchange`) and a character at which no token begins
(`Lexer.exists_exchange_of_error`); the text before a parenthesis has the tokens before it
(`Lexer.Scan.exists_before`).
-/
import PieSyntax.Proofs.Gaps

namespace PieSyntax

open Text

/-! ## Words -/

/-- A text of one character that is a lexeme by itself, whatever follows it, or none at all. -/
def Text.IsMark (u : List Char) : Prop := ∃ c ∈ ['(', ')', '\'', ';', '\\'], u = [c]

/-- `MayFollow u old new`: behind the word `u`, the text `new` can be put in the place of `old`.  It
goes on with a name only if `old` does, unless no name can go on there. -/
def Text.MayFollow (u old new : List Char) : Prop :=
  IsMark u ∨ ∀ c ∈ new.head?, isNameBody c = true → c ∈ old.head?

theorem Text.MayFollow.of_head {u old new : List Char} (h : ∀ c ∈ new.head?, isNameBody c = false) :
    MayFollow u old new := by
  right
  intro c hc hname
  rw [h c hc] at hname
  cases hname

/-- A text can be cut off anywhere behind a word. -/
theorem Text.MayFollow.of_isPrefix {u new old : List Char} (h : new <+: old) : MayFollow u old new := by
  obtain ⟨rest, rfl⟩ := h
  right
  intro c hc _
  cases new with
  | nil => cases hc
  | cons d new => exact hc

/-- A text that has begun can go on in any way. -/
theorem Text.MayFollow.of_append {u text old new : List Char} (h : text ≠ []) :
    MayFollow u (text ++ old) (text ++ new) := by
  right
  intro c hc _
  rw [List.head?_append_of_ne_nil _ h] at hc ⊢
  exact hc

/-- A mark that is a lexeme is one before every text. -/
theorem lexeme_mark {arrows : Bool} {mode : LexMode} {kind : TokenKind} {c : Char}
    (hc : c ∈ ['(', ')', '\'', ';', '\\']) (h : lexeme arrows mode [c] = .ok (kind, 1))
    (text : List Char) : lexeme arrows mode (c :: text) = .ok (kind, 1) := by
  simp only [List.mem_cons, List.not_mem_nil, or_false] at hc
  rcases hc with rfl | rfl | rfl | rfl | rfl
  · exact h
  · exact h
  · cases h
  · cases mode <;> cases h
  · cases mode with
    | plain => cases h
    | head | topLevelHead => exact h

/-- **Words.**  A word is the same word before every text that may follow it. -/
theorem lexeme_exchange {arrows : Bool} {mode : LexMode} {kind : TokenKind} {u old new : List Char}
    (hu : u ≠ []) (h : lexeme arrows mode (u ++ old) = .ok (kind, u.length))
    (hnew : MayFollow u old new) : lexeme arrows mode (u ++ new) = .ok (kind, u.length) := by
  have hown := lexeme_of_append hu h
  by_cases hmark : IsMark u
  · obtain ⟨c, hc, rfl⟩ := hmark
    exact lexeme_mark hc hown new
  · obtain ⟨c, body, rfl⟩ := List.exists_cons_of_ne_nil hu
    have hlen := (lexeme_shape h).resolve_left fun hc => hmark ⟨c, hc.1, by rw [hc.2]⟩
    obtain ⟨-, hold⟩ := all_of_length_takeWhile hlen.2
    have hhead : ∀ d ∈ new.head?, isNameBody d = false := by
      intro d hd
      by_contra hname
      rw [Bool.not_eq_false] at hname
      rw [hold d (hnew.resolve_left hmark d hd hname)] at hname
      cases hname
    rw [lexeme_append hu hhead, hown]

/-! ## Trivia -/

theorem takeWhile_of_append_lt {p : Char → Bool} {u v : List Char}
    (h : ((u ++ v).takeWhile p).length < u.length) : (u ++ v).takeWhile p = u.takeWhile p := by
  refine takeWhile_append_of_lt v (Nat.lt_of_le_of_lt ?_ h)
  rw [List.takeWhile_append]
  split
  · rw [List.length_append]
    exact Nat.le_add_right_of_le (List.takeWhile_sublist p).length_le
  · exact Nat.le_refl _

namespace Cursor

/-- Trivia that end within a text are there without what follows the text. -/
theorem trivia?_of_append {u v : List Char} {kind : TriviaKind} {n : Nat}
    (h : trivia? (u ++ v) = some (kind, n)) (hn : n < u.length) : trivia? u = some (kind, n) := by
  cases u with
  | nil => cases hn
  | cons x rest =>
    rw [List.cons_append, trivia?] at h
    rw [trivia?]
    rw [List.length_cons] at hn
    split at h
    · next hx =>
      rw [if_pos hx, ← takeWhile_of_append_lt (v := v)]
      · exact h
      · obtain ⟨-, rfl⟩ := Prod.mk.inj (Option.some.inj h)
        omega
    · next hx =>
      rw [if_neg hx]
      split at h
      · next hs =>
        rw [if_pos hs, ← takeWhile_of_append_lt (v := v)]
        · exact h
        · obtain ⟨-, rfl⟩ := Prod.mk.inj (Option.some.inj h)
          omega
      · cases h

end Cursor

namespace TriviaRun

variable {xs : List Trivia} {rest : List Char}

/-- Trivia depend on the first character behind them alone. -/
theorem exchange {c : Char} (h : TriviaRun xs (c :: rest)) (new : List Char) :
    TriviaRun xs (c :: new) := by
  generalize hrest : c :: rest = old at h
  induction h with
  | nil h =>
    subst hrest
    rw [Cursor.trivia?_eq_none_iff] at h
    exact .nil (Cursor.trivia?_eq_none_iff.2 h)
  | @cons x xs old hx hxs ih =>
    subst hrest
    refine .cons ?_ (ih rfl)
    -- The trivium `x` ends before the character `c`, up to which both texts are the same.
    have hcut : ∀ text, x.text ++ (xs.flatMap Trivia.text ++ c :: text) =
        (x.text ++ (xs.flatMap Trivia.text ++ [c])) ++ text := by simp
    have hlt : x.text.length < (x.text ++ (xs.flatMap Trivia.text ++ [c])).length := by
      simp only [List.length_append, List.length_singleton]
      omega
    rw [hcut] at hx ⊢
    exact Cursor.trivia?_append new (Cursor.trivia?_of_append hx hlt) hlt

/-- The lexer takes a run of trivia wherever it stands. -/
theorem skipTrivia_eq {o m : Nat} (h : TriviaRun xs rest) (ht : Tiles o (xs.map Trivia.piece) m) :
    Cursor.skipTrivia ⟨o, xs.flatMap Trivia.text ++ rest⟩ = (xs, ⟨m, rest⟩) := by
  induction h generalizing o with
  | nil h =>
    obtain rfl : o = m := ht
    exact Cursor.skipTrivia_of_none h
  | @cons x xs rest hx hxs ih =>
    obtain ⟨hspan, -, hmore⟩ := ht
    have hplace : x.span = ⟨o, o + byteLength x.text⟩ := hspan
    have htiles : Tiles (o + byteLength x.text) (xs.map Trivia.piece) m := hmore
    have hskip : Cursor.skip ⟨o, x.text ++ (xs.flatMap Trivia.text ++ rest)⟩ x.text.length =
        ⟨o + byteLength x.text, xs.flatMap Trivia.text ++ rest⟩ := by
      simp only [Cursor.skip, List.take_left, List.drop_left]
    rw [List.flatMap_cons, List.append_assoc,
      Cursor.skipTrivia_of_some (c := ⟨o, x.text ++ (xs.flatMap Trivia.text ++ rest)⟩) hx,
      Cursor.spanOf, hskip, ih htiles]
    simp only [List.take_left, ← hplace]

end TriviaRun

namespace Lexer

/-! ## Tokens -/

/-- The lexer at the same place, when `text` follows there. -/
def before (lx : Lexer) (text : List Char) : Lexer := ⟨lx.arrows, ⟨lx.cursor.offset, text⟩⟩

/-- The token that a lexeme behind trivia makes. -/
theorem next_of_lexeme {lx : Lexer} {mode : LexMode} {kind : TokenKind} {xs : List Trivia} {o : Nat}
    {u text : List Char} (htrivia : lx.cursor.skipTrivia = (xs, ⟨o, u ++ text⟩))
    (hu : lexeme lx.arrows mode (u ++ text) = .ok (kind, u.length)) :
    lx.next mode = (.ok ⟨kind, u, ⟨o, o + byteLength u⟩, xs⟩,
      ⟨lx.arrows, ⟨o + byteLength u, text⟩⟩) := by
  simp only [next, htrivia, hu, Cursor.spanOf, Cursor.skip, List.take_left, List.drop_left]

variable {lx last : Lexer} {mode : LexMode} {t : Token} {new : List Char}

/-- The trivia before a token are taken from every text that begins with it. -/
theorem Took.skipTrivia_before (h : Took lx mode t last) (hk : t.kind ≠ .endOfInput)
    (new : List Char) : (lx.before (t.source ++ new)).cursor.skipTrivia =
      (t.leading, ⟨t.span.start, t.text ++ new⟩) := by
  obtain ⟨c, body, htext⟩ := List.exists_cons_of_ne_nil (h.text_ne_nil hk)
  have hrun := h.leading_run
  rw [htext, List.cons_append] at hrun
  have hnewRun : TriviaRun t.leading (t.text ++ new) := by
    rw [htext, List.cons_append]
    exact hrun.exchange (body ++ new)
  rw [before, Token.source, List.append_assoc]
  exact hnewRun.skipTrivia_eq h.leading_tiles

/-- **Tokens.**  A token and the trivia before it are taken from every text that begins with them. -/
theorem next_exchange (h : lx.next mode = (.ok t, last)) (hk : t.kind ≠ .endOfInput)
    (hnew : MayFollow t.text last.cursor.rest new) :
    (lx.before (t.source ++ new)).next mode = (.ok t, last.before new) := by
  have took := took_of_next h
  have harrows : last.arrows = lx.arrows := arrows_of_next h
  have hlexeme := lexeme_exchange (took.text_ne_nil hk) took.lexeme_eq hnew
  have hstop : t.span.start + byteLength t.text = last.cursor.offset := by
    rw [took.offset_eq, took.span_eq]
  rw [next_of_lexeme (took.skipTrivia_before hk new) hlexeme, hstop]
  have hspan : (⟨t.span.start, last.cursor.offset⟩ : Span) = t.span := by
    rw [took.offset_eq]
  simp only [before, hspan, harrows]

/-- **Scans.**  The tokens of a scan are taken from every text that begins with them. -/
theorem Scan.exchange {s : Schedule} {ts : List Token} (h : Scan s lx ts last)
    (hnew : ∀ t ∈ ts.getLast?, MayFollow t.text last.cursor.rest new) :
    Scan s (lx.before (ts.flatMap Token.source ++ new)) ts (last.before new) := by
  induction h with
  | nil => exact .nil
  | @cons s lx t mid ts last ht hk hts ih =>
    rw [List.flatMap_cons, List.append_assoc]
    cases hts with
    | nil => exact .cons (next_exchange ht hk (hnew t rfl)) hk .nil
    | @cons _ _ u mid' us _ hu huk hus =>
      -- Behind `t` both texts go on with the same token.
      have hne : (u :: us).flatMap Token.source ≠ [] := by
        simp [Token.source, (took_of_next hu).text_ne_nil huk]
      have hmid := (Scan.cons hu huk hus).rest_eq
      refine .cons (next_exchange ht hk ?_) hk (ih ?_)
      · rw [hmid]
        exact .of_append hne
      · rw [List.getLast?_cons_cons] at hnew
        exact hnew

/-! ## Errors -/

/-- Why a character is no token does not depend on the text behind it. -/
theorem lexeme_error {arrows : Bool} {c : Char} {rest : List Char} {fault : LexFault}
    (h : lexeme arrows mode (c :: rest) = .error fault)
    (hnew : ∀ d ∈ new.head?, isNameBody d = false) :
    lexeme arrows mode (c :: new) = .error fault := by
  have hrun : new.takeWhile isNameBody = [] := by
    cases new with
    | nil => rfl
    | cons d new => exact List.takeWhile_cons_of_neg (by simp [hnew d rfl])
  -- Of all the tests, only that of an atom looks behind the first character.
  rw [lexeme] at h ⊢
  split at h
  · cases h
  next hopening =>
  split at h
  · cases h
  next hclosing =>
  rw [if_neg hopening, if_neg hclosing]
  split at h
  · next hquote =>
    rw [if_pos hquote, hrun]
    split at h
    · exact h
    · cases h
  next hquote =>
  rw [if_neg hquote]
  split at h
  · cases h
  next hlambda =>
  rw [if_neg hlambda]
  split at h
  · cases h
  next hvariable =>
  split at h
  · cases h
  next htype =>
  rw [if_neg hvariable, if_neg htype]
  exact h

/-- An error of lexing is the fault of the first character behind the trivia. -/
theorem exists_fault_of_error {e : LexError} (h : lx.next mode = (.error e, last)) :
    ∃ xs o c rest fault, lx.cursor.rest = xs.flatMap Trivia.text ++ c :: rest ∧
      Tiles lx.cursor.offset (xs.map Trivia.piece) o ∧ TriviaRun xs (c :: rest) ∧
      lexeme lx.arrows mode (c :: rest) = .error fault ∧ e = fault.at ⟨o, c :: rest⟩ := by
  obtain ⟨hrest, htiles, hrun⟩ := lx.cursor.skipTrivia_run
  generalize hskip : lx.cursor.skipTrivia = skipped at hrest htiles hrun
  obtain ⟨xs, o, text⟩ := skipped
  simp only [next, hskip] at h
  cases hl : lexeme lx.arrows mode text with
  | ok result => rw [hl] at h; cases h
  | error fault =>
    rw [hl] at h
    cases h
    cases text with
    | nil => cases hl
    | cons c rest => exact ⟨xs, o, c, rest, fault, hrest, htiles, hrun, hl, rfl⟩

/-- **Errors.**  A character at which no token begins is found in every text that comes to it, if no
name goes on there. -/
theorem exists_exchange_of_error {e : LexError} (h : lx.next mode = (.error e, last)) :
    ∃ u rest, u ≠ [] ∧ lx.cursor.rest = u ++ rest ∧ lx.cursor.offset + byteLength u = e.span.stop ∧
      ∀ new : List Char, (∀ c ∈ new.head?, isNameBody c = false) →
        ∃ last', (lx.before (u ++ new)).next mode = (.error e, last') := by
  obtain ⟨xs, o, c, rest, fault, hrest, htiles, hrun, hl, rfl⟩ := exists_fault_of_error h
  have hplace : ∀ text, fault.at ⟨o, c :: text⟩ = fault.at ⟨o, c :: rest⟩ := by
    intro text
    cases fault <;> simp [LexFault.at, Cursor.spanOf, Cursor.skip]
  refine ⟨xs.flatMap Trivia.text ++ [c], rest, by simp, by simpa using hrest, ?_, ?_⟩
  · have hstop := htiles.stop_eq
    rw [Trivia.flatMap_piece] at hstop
    have hspan : (fault.at ⟨o, c :: rest⟩).span.stop = o + c.utf8Size := by
      cases fault <;> simp [LexFault.at, LexError.span, Cursor.spanOf, Cursor.skip]
    rw [hspan, hstop]
    simp only [byteLength_append, byteLength_cons, byteLength_nil]
    omega
  · intro new hnew
    have htrivia : (lx.before (xs.flatMap Trivia.text ++ [c] ++ new)).cursor.skipTrivia =
        (xs, ⟨o, c :: new⟩) := by
      rw [List.append_assoc]
      exact (hrun.exchange new).skipTrivia_eq htiles
    have hlexeme : lexeme (lx.before (xs.flatMap Trivia.text ++ [c] ++ new)).arrows mode
        (c :: new) = .error fault := lexeme_error hl hnew
    simp only [next, htrivia, hlexeme, hplace]
    exact ⟨_, rfl⟩

/-! ## Parentheses -/

/-- The character that a parenthesis is written as. -/
def paren? : TokenKind → Option Char
  | .leftParen => some '('
  | .rightParen => some ')'
  | _ => none

theorem paren?_classifyName (arrows : Bool) (run : List Char) :
    paren? (classifyName arrows mode run) = none := by
  unfold classifyName
  split
  · split <;> rfl
  · rfl

/-- A parenthesis is a lexeme of one character. -/
theorem lexeme_paren {arrows : Bool} {kind : TokenKind} {n : Nat} {c d : Char} {rest : List Char}
    (h : lexeme arrows mode (c :: rest) = .ok (kind, n)) (hk : paren? kind = some d) :
    c = d ∧ n = 1 := by
  rw [lexeme] at h
  split at h
  · next hc =>
    cases h
    cases hk
    exact ⟨hc, rfl⟩
  split at h
  · next hc =>
    cases h
    cases hk
    exact ⟨hc, rfl⟩
  split at h
  · split at h
    · cases h
    · cases h
      cases hk
  split at h
  · cases h
    cases hk
  simp only at h
  split at h
  · cases h
    rw [paren?_classifyName] at hk
    cases hk
  · split at h
    · cases h
      cases hk
    · cases h

theorem Took.text_of_paren {here next : Lexer} {t : Token} {c : Char} (h : Took here mode t next)
    (hk : paren? t.kind = some c) : t.text = [c] := by
  have hne := h.text_ne_nil fun hend => by rw [hend] at hk; cases hk
  obtain ⟨d, body, htext⟩ := List.exists_cons_of_ne_nil hne
  have hlexeme := h.lexeme_eq
  rw [htext, List.cons_append] at hlexeme
  obtain ⟨rfl, hlength⟩ := lexeme_paren hlexeme hk
  rw [List.length_cons, Nat.add_eq_right] at hlength
  rw [htext, List.length_eq_zero_iff.1 hlength]

theorem Took.text_of_leftParen {here next : Lexer} {t : Token} (h : Took here mode t next)
    (hk : t.kind = .leftParen) : t.text = ['('] := h.text_of_paren (by rw [hk]; rfl)

theorem Took.text_of_rightParen {here next : Lexer} {t : Token} (h : Took here mode t next)
    (hk : t.kind = .rightParen) : t.text = [')'] := h.text_of_paren (by rw [hk]; rfl)

theorem Scan.text_of_leftParen {s : Schedule} {ts : List Token} {t : Token} (h : Scan s lx ts last)
    (ht : t ∈ ts) (hk : t.kind = .leftParen) : t.text = ['('] := by
  obtain ⟨before, here, next, -, -, took⟩ := h.exists_took ht
  exact took.text_of_leftParen hk

/-- **Parentheses.**  The text before an opening parenthesis has the tokens that come before it. -/
theorem Scan.exists_before {arrows : Bool} {source : List Char} {ts : List Token} {o : Token}
    {here next : Lexer} (hts : Scan .initial (.ofSource arrows source) ts here)
    (took : Took here mode o next) (ho : o.kind = .leftParen) :
    ∃ text t, ts.flatMap Token.source ++ o.source = text ++ ['('] ∧
      source = text ++ '(' :: next.cursor.rest ∧ o.span = ⟨byteLength text, byteLength text + 1⟩ ∧
      tokenize arrows text = .ok (ts ++ [t]) ∧ t.kind = .endOfInput := by
  have htext := took.text_of_leftParen ho
  generalize hw : o.leading.flatMap Trivia.text = w
  have hosource : o.source = w ++ ['('] := by rw [Token.source, hw, htext]
  have hhere : here.cursor.rest = w ++ '(' :: next.cursor.rest := by
    rw [took.rest_eq, hosource, List.append_assoc]
    rfl
  -- The text ends with the trivia before the parenthesis, which are a gap.
  have hscan : Scan .initial (.ofSource arrows (ts.flatMap Token.source ++ w)) ts (here.before w) :=
    hts.exchange fun t _ => .of_isPrefix (by rw [hhere]; exact List.prefix_append _ _)
  have hgap : IsLastGap w := by
    rw [← hw]
    exact took.leading_run.isLastGap
  obtain ⟨t, ht, hk⟩ := hscan.exists_tokenize hgap
  refine ⟨ts.flatMap Token.source ++ w, t, ?_, ?_, ?_, ht, hk⟩
  · rw [hosource, List.append_assoc]
  · have hsource : source = ts.flatMap Token.source ++ here.cursor.rest := hts.rest_eq
    rw [hhere, ← List.append_assoc] at hsource
    exact hsource
  · have hstart : o.span.start = byteLength (ts.flatMap Token.source ++ w) := by
      rw [hts.place_eq took.leading_tiles, hw]
    rw [took.span_eq, htext, hstart]
    rfl

end Lexer

end PieSyntax
