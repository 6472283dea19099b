/-
# Texts that go on

What a parser has refused stays refused when more text follows; only the end of the input can be
taken back, and it is laid to an open form unless one parenthesis too many is open.  Main statements:
an error that is not for want of input remains one however the text goes on
(`exists_error_of_parse_append`), and blanks and comments behind the last line change nothing that
can be said of a text (`verdict_append`).
-/
import PieSyntax.Proofs.Agreement
import PieSyntax.Proofs.Gaps

namespace PieSyntax

/-! ## One parenthesis too many -/

/-- What is reported of the parenthesis at `opening`, one too many, if lexing the word behind it has
the result `r`. -/
def SyntaxError.deep (limit : Nat) (opening : Span) (r : Except LexError Token) : SyntaxError :=
  match r with
  | .ok _ => .grammatical (.depthExceeded limit opening)
  | .error e => .lexical e

namespace Parser

/-- One parenthesis too many has been opened, whatever word follows it. -/
def IsSpent (p : Parser) : Prop := (∃ opening, p.focus = .head opening) ∧ p.maxDepth ≤ p.depth

/-- A parser with one parenthesis too many lays every token to that parenthesis. -/
theorem IsSpent.read_eq {p : Parser} {opening : Span} (h : p.IsSpent) (hf : p.focus = .head opening)
    (t : Token) : p.read t = .error (.depthExceeded p.maxDepth opening) := by
  obtain ⟨d, root, ts, enclosing, focus⟩ := p
  simp only at hf
  subst hf
  exact read_of_refusal (.deepForm h.2)

/-- A parser with one parenthesis too many lexes the next word before it gives up. -/
theorem IsSpent.run_eq {p : Parser} {opening : Span} (h : p.IsSpent) (hf : p.focus = .head opening)
    (lx : Lexer) : p.run lx = .error (.deep p.maxDepth opening (lx.next p.mode).1) := by
  have hidle : p.isIdle = false := by rw [isIdle, hf]
  cases hnext : lx.next p.mode with
  | mk r last =>
    cases r with
    | error e => exact run_of_ending (.lexical hnext)
    | ok t =>
      refine run_of_ending (.refused hnext (h.read_eq hf t) ?_)
      rw [hidle]
      exact fun h => Bool.noConfusion h

/-- No text leads a parser with one parenthesis too many any further. -/
theorem IsSpent.exists_error_of_run {p : Parser} (h : p.IsSpent) (lx : Lexer) :
    ∃ e, p.run lx = .error e ∧ e.isIncomplete = false := by
  obtain ⟨opening, hf⟩ := h.1
  refine ⟨_, h.run_eq hf lx, ?_⟩
  cases (lx.next p.mode).1 <;> rfl

/-! ## The end of the input -/

/-- Where the input ends inside a form, more of it is asked for. -/
theorem isIncomplete_reject {p : Parser} {t : Token} {expected : List Expected}
    {context : Production} (ht : t.kind = .endOfInput) (hp : p.openings ≠ []) :
    (SyntaxError.grammatical (p.reject t expected context)).isIncomplete = true := by
  obtain ⟨⟨production, opening⟩, others, hopen⟩ := List.exists_cons_of_ne_nil hp
  have hend : t.isEnd = true := by rw [Token.isEnd, ht]; rfl
  rw [reject, if_pos hend, hopen]
  rfl

theorem openings_cons_ne_nil (d : Nat) (root : NodeBuilder) (ts : Array Token) (f : OpenForm)
    (slot : Slot) (outer : List (OpenForm × Slot)) :
    openings ⟨d, root, ts, (f, slot) :: outer, .expression⟩ ≠ [] := by
  cases slot <;> simp [openings, Slot.openings]

/-- **The end of the input.**  Inside a form the end of the input asks for more, unless one
parenthesis too many is open. -/
theorem isIncomplete_iff_of_end {p : Parser} {t : Token} {e : ParseError} (h : Refusal p t e)
    (ht : t.kind = .endOfInput) (hp : p.isIdle = false) :
    (SyntaxError.grammatical e).isIncomplete = true ↔ ¬ p.IsSpent := by
  have starts : t.kind.startsExpression = false := by rw [ht]; rfl
  have noLeaf : leafKind? t.kind = none := by rw [ht]; rfl
  have calm : ∀ {p : Parser}, (∀ opening, p.focus ≠ .head opening) → ¬ p.IsSpent :=
    fun hfocus hspent => hspent.1.elim hfocus
  induction h with
  | topLevel => cases hp
  | unexpected =>
    exact iff_of_true (isIncomplete_reject ht (openings_cons_ne_nil _ _ _ _ _ _))
      (calm fun _ => Focus.noConfusion)
  | name | parameters | close =>
    exact iff_of_true (isIncomplete_reject ht (List.cons_ne_nil _ _))
      (calm fun _ => Focus.noConfusion)
  | deepForm hd => exact iff_of_false (by simp [SyntaxError.isIncomplete]) fun h => h ⟨⟨_, rfl⟩, hd⟩
  | application hk hd he ih =>
    -- The application that begins here has room, and the end of the input is laid to it.
    have hinner := (ih ht rfl starts noLeaf).2 (calm fun _ => Focus.noConfusion)
    exact iff_of_true hinner fun hspent => absurd hspent.2 (Nat.not_le.2 hd)
  | missing hk | closing hk | deepArguments hk | closed hk =>
    rw [ht] at hk
    cases hk
  | leaf hk =>
    rw [noLeaf] at hk
    cases hk
  | extra hk =>
    rw [starts] at hk
    cases hk

end Parser

/-! ## More text -/

variable {settings : Settings} {source : List Char} {e : SyntaxError}

/-- **Rejected texts.**  An error that is not for want of input remains one however the text goes
on, if only the last word stays as it is. -/
theorem exists_error_of_parse_append {more : List Char} (h : parse settings source = .error e)
    (he : e.isIncomplete = false) (hmore : ∀ c ∈ more.head?, Text.isNameBody c = false) :
    ∃ e', parse settings (source ++ more) = .error e' ∧ e'.isIncomplete = false := by
  obtain ⟨ts, q, here, hts, hq, hend⟩ := parse_ending settings source
  have hrun : parse settings (source ++ more) = q.run (here.append more) :=
    Parser.run_of_scan (hts.append hmore) hq
  rw [h] at hend
  rw [hrun]
  cases hend with
  | lexical hlex =>
    have hnext := Lexer.next_append_of_ne_end hlex (fun t ht => by cases ht) hmore
    exact ⟨_, Parser.run_of_ending (.lexical hnext), rfl⟩
  | @refused t last e ht hr hk =>
    by_cases htend : t.kind = .endOfInput
    · have hidle : q.isIdle = false := Bool.eq_false_iff.2 fun h => hk h htend
      have hspent : q.IsSpent := by
        by_contra hnot
        rw [(Parser.isIncomplete_iff_of_end (Parser.refusal_of_read hr) htend hidle).2 hnot] at he
        cases he
      exact hspent.exists_error_of_run _
    · have hnext := Lexer.next_append_of_ne_end ht
        (fun u hu => by rw [← Except.ok.inj hu]; exact htend) hmore
      exact ⟨_, Parser.run_of_ending (.refused hnext hr hk), he⟩

/-- Behind the last token of a text there is nothing but a last gap. -/
theorem Lexer.isLastGap_of_end {lx last : Lexer} {mode : LexMode} {t : Token}
    (h : lx.next mode = (.ok t, last)) (ht : t.kind = .endOfInput) :
    Text.IsLastGap lx.cursor.rest := by
  have took := Lexer.took_of_next h
  obtain ⟨htext, hlast⟩ := took.end_of_kind ht
  have hrun := took.leading_run
  have hrest := took.rest_eq
  rw [htext, hlast] at hrun
  rw [Token.source, htext, hlast, List.append_nil, List.append_nil] at hrest
  rw [hrest]
  exact hrun.isLastGap

/-! ## A gap at the end -/

/-- What can be said of a text whatever gap may end it: the forms and the tokens of a program, that it
ends inside a form, or why no further text would make it a program. -/
inductive Verdict where
  | program (forms : List Node) (tokens : List Token)
  | incomplete
  | rejected (error : SyntaxError)

/-- What a parse says of its text. -/
def Verdict.ofParse : Except SyntaxError SyntaxTree → Verdict
  | .ok tree => .program tree.forms tree.tokens
  | .error e => if e.isIncomplete then .incomplete else .rejected e

theorem Verdict.ofParse_error_ne_program (e : SyntaxError) (forms : List Node) (tokens : List Token) :
    ofParse (.error e) ≠ .program forms tokens := by
  rw [ofParse]
  split <;> exact Verdict.noConfusion

/-- A text that does not parse is incomplete exactly if its error says so. -/
theorem Verdict.ofParse_error_eq_incomplete_iff {e : SyntaxError} :
    ofParse (.error e) = .incomplete ↔ e.isIncomplete = true := by
  rw [ofParse]
  split
  · next he => exact iff_of_true rfl he
  · next he => exact iff_of_false Verdict.noConfusion he

/-- What is said of `source`. -/
def verdict (settings : Settings) (source : List Char) : Verdict := .ofParse (parse settings source)

namespace Parser

/-- At the end of the input it does not matter where the input ends, if only one is at its end where
the other is. -/
theorem verdict_of_end {p : Parser} {lx lx' last last' : Lexer} {t u : Token}
    {r : Except SyntaxError SyntaxTree} (h : Ending p lx r) (ht : lx.next p.mode = (.ok t, last))
    (htend : t.kind = .endOfInput) (hu : lx'.next p.mode = (.ok u, last'))
    (huend : u.kind = .endOfInput) : Verdict.ofParse (p.run lx') = Verdict.ofParse r := by
  cases h with
  | lexical he =>
    rw [ht] at he
    cases he
  | finished _ hp =>
    rw [run_of_ending (.finished hu hp huend)]
    rfl
  | @refused v _ e hv hr hk =>
    rw [ht] at hv
    cases hv
    have hidle : p.isIdle = false := Bool.eq_false_iff.2 fun h => hk h htend
    cases hread : p.read u with
    | ok q => exact absurd huend (kind_ne_of_read hread)
    | error e' =>
      have hend : Ending p lx' (.error (.grammatical e')) :=
        .refused hu hread fun h => by rw [hidle] at h; cases h
      have hiff := isIncomplete_iff_of_end (refusal_of_read hr) htend hidle
      have hiff' := isIncomplete_iff_of_end (refusal_of_read hread) huend hidle
      rw [run_of_ending hend, Verdict.ofParse, Verdict.ofParse]
      by_cases hspent : p.IsSpent
      · -- Both ends are laid to the parenthesis that is one too many.
        obtain ⟨opening, hf⟩ := hspent.1
        rw [hspent.read_eq hf] at hr hread
        cases hr
        cases hread
        rfl
      · rw [if_pos (hiff.2 hspent), if_pos (hiff'.2 hspent)]

end Parser

/-- **A gap at the end.**  What is said of a text does not change when blanks and comments follow it
behind the end of its line. -/
theorem verdict_append (settings : Settings) (source : List Char) {w : List Char}
    (hw : Text.IsGap w) (hfirst : ∀ c ∈ w.head?, Text.EndsLine c) :
    verdict settings (source ++ w) = verdict settings source := by
  obtain ⟨ts, q, here, hts, hq, hend⟩ := parse_ending settings source
  have hhead := hw.isLastGap.head
  have hrun : parse settings (source ++ w) = q.run (here.append w) :=
    Parser.run_of_scan (hts.append hhead) hq
  rw [verdict, verdict, hrun]
  generalize parse settings source = result at hend ⊢
  cases hnext : here.next q.mode with
  | mk r last =>
    by_cases hr : ∀ t, r = .ok t → t.kind ≠ .endOfInput
    · -- The word that ends the run is the same, and so is the error.
      have hmore := Lexer.next_append_of_ne_end hnext hr hhead
      cases hend with
      | lexical he =>
        rw [hnext] at he
        cases he
        rw [Parser.run_of_ending (.lexical hmore)]
      | finished ht _ hk =>
        rw [hnext] at ht
        cases ht
        exact absurd hk (hr _ rfl)
      | refused ht he hk =>
        rw [hnext] at ht
        cases ht
        rw [Parser.run_of_ending (.refused hmore he hk)]
    · -- The input ends here, and with the gap it ends a little later.
      push Not at hr
      obtain ⟨t, rfl, htend⟩ := hr
      have hgap := (Lexer.isLastGap_of_end hnext htend).append hw hfirst
      obtain ⟨u, last', hu, huend⟩ : ∃ u last', (here.append w).next q.mode = (.ok u, last') ∧
        u.kind = .endOfInput := Lexer.exists_end_of_lastGap q.mode hgap
      exact Parser.verdict_of_end hend hnext htend hu huend

/-- The end of a line makes no difference to what is said of the text up to it. -/
theorem verdict_append_lineEnd (settings : Settings) (source : List Char) {w : List Char}
    (hw : Text.IsLineEnd w) : verdict settings (source ++ w) = verdict settings source :=
  verdict_append settings source (.of_blanks hw.blank)
    fun c hc => hw.endsLine c (List.mem_of_mem_head? hc)

end PieSyntax
