/-
# Calls of the lexer

One lexer may be asked for tokens in any modes, one after the other, and be asked again after an error.
A single call is described by `Orderly`; what a sequence of calls keeps follows by induction on the
modes.  Main statement: a lexer never leaves the boundaries of its source, never goes back, gives at
most one token for each byte, and reading a whole source comes to an end (`calls_make_progress`).
-/
import PieSyntax.Proofs.Agreement
import PieSyntax.Proofs.LexicalRules

namespace PieSyntax.Lexer

open Text

/-! ## Calls one after the other -/

/-- What calls in `modes` give, one after the other.  An error does not end them. -/
def calls (lx : Lexer) : List LexMode → List (Except LexError Token)
  | [] => []
  | mode :: modes => (lx.next mode).1 :: calls (lx.next mode).2 modes

/-- The lexer after calls in `modes`. -/
def afterCalls (lx : Lexer) (modes : List LexMode) : Lexer :=
  modes.foldl (fun lx mode => (lx.next mode).2) lx

@[simp] theorem afterCalls_nil (lx : Lexer) : lx.afterCalls [] = lx := rfl

@[simp] theorem afterCalls_cons (lx : Lexer) (mode : LexMode) (modes : List LexMode) :
    lx.afterCalls (mode :: modes) = (lx.next mode).2.afterCalls modes := rfl

theorem calls_length (lx : Lexer) (modes : List LexMode) : (lx.calls modes).length = modes.length := by
  induction modes generalizing lx with
  | nil => rfl
  | cons mode modes ih => rw [calls, List.length_cons, List.length_cons, ih]

/-- Calls that give the same and leave the lexer where it is do so however often they are made. -/
theorem calls_of_stays {lx : Lexer} {r : Except LexError Token} {modes : List LexMode}
    (h : ∀ mode ∈ modes, lx.next mode = (r, lx)) :
    lx.calls modes = List.replicate modes.length r ∧ lx.afterCalls modes = lx := by
  induction modes with
  | nil => exact ⟨rfl, rfl⟩
  | cons mode modes ih =>
    rw [List.forall_mem_cons] at h
    obtain ⟨hcalls, hafter⟩ := ih h.2
    constructor
    · rw [calls, h.1, hcalls]
      rfl
    · rw [afterCalls_cons, h.1, hafter]

/-! ## One call -/

/-- `Orderly lx mode`: a call from `lx` in `mode` does not go back.  A token and the trivia before it
fill what is passed, and only the end of the input passes nothing.  An error passes the trivia before
it and is found again by the next call.  After the end of the input there is nothing else. -/
structure Orderly (lx : Lexer) (mode : LexMode) : Prop where
  forward : lx.cursor.offset ≤ (lx.next mode).2.cursor.offset
  token : ∀ t last, lx.next mode = (.ok t, last) →
    Tiles lx.cursor.offset (t.leading.map Trivia.piece) t.span.start ∧
      t.span.stop = last.cursor.offset ∧
      (t.kind ≠ .endOfInput → lx.cursor.offset < last.cursor.offset)
  error : ∀ e last, lx.next mode = (.error e, last) →
    last.cursor.offset = e.span.start ∧
      (∃ gap, IsLastGap gap ∧ lx.cursor.rest = gap ++ last.cursor.rest) ∧
      last.next mode = (.error e, last)
  ended : ∀ t last, lx.next mode = (.ok t, last) → t.kind = .endOfInput →
    ∀ modes, last.calls modes = List.replicate modes.length
        (.ok ⟨.endOfInput, [], ⟨last.cursor.offset, last.cursor.offset⟩, []⟩) ∧
      last.afterCalls modes = last

section Call

variable {lx last : Lexer} {mode : LexMode} {t : Token} {e : LexError}

theorem Took.span_stop (h : Took lx mode t last) :
    t.span.stop = t.span.start + byteLength t.text := by
  rw [h.span_eq]

/-- Every token but the end of the input moves the lexer on. -/
theorem Took.offset_lt (h : Took lx mode t last) (hk : t.kind ≠ .endOfInput) :
    lx.cursor.offset < last.cursor.offset := by
  have hle := h.leading_tiles.le
  have hpos := byteLength_pos (h.text_ne_nil hk)
  rw [h.offset_eq, h.span_stop]
  omega

/-- An error stands where its span begins, behind the trivia that were passed. -/
theorem passed_of_error (h : lx.next mode = (.error e, last)) :
    last.cursor.offset = e.span.start ∧
      ∃ gap, IsLastGap gap ∧ lx.cursor.rest = gap ++ last.cursor.rest := by
  obtain ⟨xs, fault, hskip, -, rfl⟩ := exists_lexes_of_error h
  obtain ⟨hrest, -, hrun⟩ := lx.cursor.skipTrivia_run
  rw [hskip] at hrest hrun
  refine ⟨?_, _, hrun.isLastGap, hrest⟩
  cases fault <;> rfl

/-- The call after an error finds the same error. -/
theorem next_of_error (h : lx.next mode = (.error e, last)) : last.next mode = (.error e, last) := by
  obtain ⟨xs, fault, hskip, hr, rfl⟩ := exists_lexes_of_error h
  obtain ⟨-, -, hrun⟩ := lx.cursor.skipTrivia_run
  rw [hskip] at hrun
  have hstay := Cursor.skipTrivia_of_none hrun.trivia?_rest
  rw [← arrows_of_next h] at hr
  exact next_of_lexes_error hstay hr

/-- Where no text is left, every call gives the end of the input. -/
theorem next_of_rest_eq_nil (h : lx.cursor.rest = []) (mode : LexMode) :
    lx.next mode = (.ok ⟨.endOfInput, [], ⟨lx.cursor.offset, lx.cursor.offset⟩, []⟩, lx) := by
  obtain ⟨arrows, o, rest⟩ := lx
  obtain rfl : rest = [] := h
  exact next_of_lexeme (Cursor.skipTrivia_of_none rfl) rfl

/-- **One call.**  Every call is orderly, wherever the lexer stands. -/
theorem orderly (lx : Lexer) (mode : LexMode) : Orderly lx mode where
  forward := by
    cases h : (lx.next mode).1 with
    | ok t =>
      have took := took_of_next (Prod.ext h rfl)
      have hle := took.leading_tiles.le
      rw [took.offset_eq, took.span_stop]
      omega
    | error e =>
      have herror : lx.next mode = (.error e, (lx.next mode).2) := Prod.ext h rfl
      rw [(passed_of_error herror).1]
      exact start_of_error herror
  token := fun t last h =>
    ⟨(took_of_next h).leading_tiles, (took_of_next h).offset_eq.symm, (took_of_next h).offset_lt⟩
  error := fun e last h =>
    ⟨(passed_of_error h).1, (passed_of_error h).2, next_of_error h⟩
  ended := fun t last h hk modes => calls_of_stays fun mode _ =>
    next_of_rest_eq_nil ((took_of_next h).end_of_kind hk).2 mode

end Call

/-! ## What calls keep -/

/-- Whether a call has given a token before the end of the input. -/
def isWord : Except LexError Token → Bool
  | .ok t => t.kind != .endOfInput
  | .error _ => false

/-- A call leaves a source at a boundary between characters if it is made at one. -/
theorem exists_between_of_next (arrows : Bool) (mode : LexMode) (before text : List Char) :
    ∃ passed rest, text = passed ++ rest ∧
      ((between arrows before text).next mode).2 = between arrows (before ++ passed) rest := by
  obtain ⟨gap, behind, r, rfl, -, -, hanswer⟩ := exists_answers arrows mode before text
  generalize (between arrows before (gap ++ behind)).next mode = answer at hanswer ⊢
  cases hanswer with
  | @token kind u rest leading hbehind =>
    refine ⟨gap ++ u, rest, ?_, ?_⟩
    · rw [hbehind, List.append_assoc]
    · rw [← List.append_assoc]
  | unrecognized | incompleteAtom => exact ⟨gap, behind, rfl, rfl⟩

/-- **Boundaries.**  However a lexer is called, it stays between two characters of its source. -/
theorem exists_between_of_afterCalls (arrows : Bool) (modes : List LexMode) (before text : List Char) :
    ∃ passed rest, text = passed ++ rest ∧
      (between arrows before text).afterCalls modes = between arrows (before ++ passed) rest := by
  induction modes generalizing before text with
  | nil => exact ⟨[], text, rfl, by rw [List.append_nil]; rfl⟩
  | cons mode modes ih =>
    -- What the first call passes joins the text before the boundary for the calls that follow.
    obtain ⟨passed, rest, rfl, hnext⟩ := exists_between_of_next arrows mode before text
    obtain ⟨more, last, rfl, hlast⟩ := ih (before ++ passed) rest
    refine ⟨passed ++ more, last, ?_, ?_⟩
    · rw [List.append_assoc]
    · rw [afterCalls_cons, hnext, hlast, List.append_assoc]

/-- **Progress.**  Each token that a sequence of calls gives is paid for by a byte. -/
theorem countP_calls_le (lx : Lexer) (modes : List LexMode) :
    lx.cursor.offset + (lx.calls modes).countP isWord ≤ (lx.afterCalls modes).cursor.offset := by
  induction modes generalizing lx with
  | nil => exact Nat.le_refl _
  | cons mode modes ih =>
    have hmore := ih (lx.next mode).2
    have hone := (orderly lx mode).forward
    rw [calls, List.countP_cons, afterCalls_cons]
    split
    · next hword =>
      cases h : (lx.next mode).1 with
      | error e => rw [h] at hword; cases hword
      | ok t =>
        rw [h] at hword
        have hlt : lx.cursor.offset < (lx.next mode).2.cursor.offset :=
          (took_of_next (Prod.ext h rfl)).offset_lt (bne_iff_ne.1 hword)
        omega
    · omega

/-- No call moves the lexer back. -/
theorem offset_le_afterCalls (lx : Lexer) (modes : List LexMode) :
    lx.cursor.offset ≤ (lx.afterCalls modes).cursor.offset :=
  Nat.le_trans (Nat.le_add_right _ _) (countP_calls_le lx modes)

/-! ## Whole sources -/

/-- Reading a whole source is a sequence of calls, each of which but the last gives a token before the
end of the input. -/
theorem exists_calls_of_tokensFrom (s : Schedule) (lx : Lexer) :
    ∃ modes mode, tokensFrom s lx = (lx.calls (modes ++ [mode])).mapM id ∧
      (∀ r ∈ lx.calls modes, isWord r = true) ∧
      isWord ((lx.afterCalls modes).next mode).1 = false := by
  induction s, lx using tokensFrom.induct with
  | case1 s lx e h =>
    refine ⟨[], s.mode, ?_, ?_, ?_⟩
    · rw [tokensFrom_of_error h]
      simp [calls, h]
    · simp [calls]
    · simp [h, isWord]
  | case2 s lx t h ht =>
    refine ⟨[], s.mode, ?_, ?_, ?_⟩
    · rw [tokensFrom_of_end h ht]
      simp [calls, h]
    · simp [calls]
    · simp [h, isWord, ht]
  | case3 s lx t h ht ih =>
    obtain ⟨modes, mode, htokens, hwords, hlast⟩ := ih
    refine ⟨s.mode :: modes, mode, ?_, ?_, hlast⟩
    · rw [tokensFrom_of_ne_end h ht, htokens, List.cons_append, calls, List.mapM_cons, h]
      rfl
    · rw [calls, List.forall_mem_cons, h]
      exact ⟨bne_iff_ne.2 ht, hwords⟩

/-- **The calls of a lexer.**  In whatever modes a lexer of `source` is called, errors or not, it stays
between two characters of the source, never goes back, and every call is orderly.  It gives no more
tokens than there are bytes, so that reading a whole source ends after at most one call more. -/
theorem calls_make_progress (arrows : Bool) (source : List Char) :
    (∀ modes, let lx := (ofSource arrows source).afterCalls modes
      (∃ before text, source = before ++ text ∧ lx = between arrows before text) ∧
      lx.cursor.offset ≤ byteLength source ∧
      (∀ more, lx.cursor.offset ≤ (lx.afterCalls more).cursor.offset) ∧
      (∀ mode, Orderly lx mode) ∧
      ((ofSource arrows source).calls modes).countP isWord ≤ byteLength source) ∧
    ∃ modes mode, modes.length ≤ byteLength source ∧
      tokenize arrows source = ((ofSource arrows source).calls (modes ++ [mode])).mapM id ∧
      (∀ r ∈ (ofSource arrows source).calls modes, isWord r = true) ∧
      isWord (((ofSource arrows source).afterCalls modes).next mode).1 = false := by
  have hplace : ∀ modes, ∃ before text, source = before ++ text ∧
      (ofSource arrows source).afterCalls modes = between arrows before text := by
    intro modes
    exact exists_between_of_afterCalls arrows modes [] source
  have hbound : ∀ modes, ((ofSource arrows source).afterCalls modes).cursor.offset ≤
      byteLength source := by
    intro modes
    obtain ⟨before, text, hsource, hlx⟩ := hplace modes
    rw [hlx, hsource, byteLength_append]
    exact Nat.le_add_right _ _
  have hcount : ∀ modes, ((ofSource arrows source).calls modes).countP isWord ≤
      byteLength source := by
    intro modes
    have hpaid := countP_calls_le (ofSource arrows source) modes
    have := hbound modes
    omega
  constructor
  · intro modes lx
    exact ⟨hplace modes, hbound modes, offset_le_afterCalls lx, orderly lx, hcount modes⟩
  · obtain ⟨modes, mode, htokens, hwords, hlast⟩ :=
      exists_calls_of_tokensFrom .initial (ofSource arrows source)
    refine ⟨modes, mode, ?_, htokens, hwords, hlast⟩
    rw [← calls_length (ofSource arrows source) modes, ← List.countP_eq_length.2 hwords]
    exact hcount modes

end PieSyntax.Lexer
