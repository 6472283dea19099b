/-
# Texts one behind the other

The forms of two texts with a line feed between them are those of the first and those of the second,
the latter further on.  A lexer in the second text finds there what it would find in a text of its
own (`Lexer.Aligned`), and a parser that stands between two forms has only completed forms to carry
along.  Main statement: parsing respects concatenation (`parse_append_lineFeed_cases`).
-/
import PieSyntax.Proofs.Continuation
import PieSyntax.Proofs.Relocation

namespace PieSyntax

open Text

/-! ## Aligned lexers -/

namespace Cursor

/-- The cursor `n` bytes further on in a longer source. -/
def shift (n : Nat) (c : Cursor) : Cursor := { c with offset := c.offset + n }

theorem skip_shift (n k : Nat) (c : Cursor) : (c.shift n).skip k = (c.skip k).shift n := by
  simp only [skip, shift, Nat.add_right_comm]

theorem spanOf_shift (n k : Nat) (c : Cursor) : (c.shift n).spanOf k = (c.spanOf k).shift n := by
  rw [spanOf, skip_shift]
  rfl

/-- Trivia are skipped further on as they are here. -/
theorem skipTrivia_shift (n : Nat) (c : Cursor) :
    (c.shift n).skipTrivia.2 = c.skipTrivia.2.shift n := by
  fun_induction skipTrivia c with
  | case1 c h => rw [skipTrivia_of_none (c := c.shift n) h]
  | case2 c kind k h more ih =>
    rw [skipTrivia_of_some (c := c.shift n) h, skip_shift]
    exact ih

end Cursor

theorem LexFault.at_shift (n : Nat) (c : Cursor) (fault : LexFault) :
    fault.at (c.shift n) = (fault.at c).relocate (.shift n) := by
  cases fault <;> simp only [LexFault.at, LexError.relocate, Cursor.spanOf_shift] <;> rfl

namespace Lexer

/-- `Aligned n lx lx'`: behind the trivia at which they stand, the two lexers have the same text
before them, `lx'` at a place that is `n` bytes further on. -/
structure Aligned (n : Nat) (lx lx' : Lexer) : Prop where
  arrows_eq : lx'.arrows = lx.arrows
  cursor_eq : lx'.cursor.skipTrivia.2 = lx.cursor.skipTrivia.2.shift n

theorem aligned_of_shift {n : Nat} {lx lx' : Lexer} (ha : lx'.arrows = lx.arrows)
    (hc : lx'.cursor = lx.cursor.shift n) : Aligned n lx lx' :=
  ⟨ha, by rw [hc, Cursor.skipTrivia_shift]⟩

variable {n : Nat} {lx lx' last : Lexer} {mode : LexMode}

/-- A lexer further on fails with the error further on. -/
theorem Aligned.error {e : LexError} (h : Aligned n lx lx') (he : lx.next mode = (.error e, last)) :
    ∃ last', lx'.next mode = (.error (e.relocate (.shift n)), last') := by
  simp only [next, h.arrows_eq, h.cursor_eq] at he ⊢
  have hrest : (lx.cursor.skipTrivia.2.shift n).rest = lx.cursor.skipTrivia.2.rest := rfl
  rw [hrest]
  cases hl : lexeme lx.arrows mode lx.cursor.skipTrivia.2.rest with
  | ok result => rw [hl] at he; cases he
  | error fault =>
    rw [hl] at he
    cases he
    simp only [LexFault.at_shift]
    exact ⟨_, rfl⟩

/-- A lexer further on takes the token further on. -/
theorem Aligned.token {t : Token} (h : Aligned n lx lx') (ht : lx.next mode = (.ok t, last)) :
    ∃ u last', lx'.next mode = (.ok u, last') ∧ Aligned n last last' ∧
      t.Relocated (.shift n) u ∧ u.text = t.text := by
  simp only [next, h.arrows_eq, h.cursor_eq] at ht ⊢
  have hrest : (lx.cursor.skipTrivia.2.shift n).rest = lx.cursor.skipTrivia.2.rest := rfl
  rw [hrest]
  cases hl : lexeme lx.arrows mode lx.cursor.skipTrivia.2.rest with
  | error fault => rw [hl] at ht; cases ht
  | ok result =>
    rw [hl] at ht
    cases ht
    simp only [Cursor.spanOf_shift, Cursor.skip_shift]
    exact ⟨_, _, rfl, aligned_of_shift rfl rfl, ⟨rfl, rfl, fun _ => rfl⟩, rfl⟩

/-- Aligned lexers take the same tokens, one `n` bytes behind the other. -/
theorem Scan.exists_aligned {s : Schedule} {ts : List Token} (h : Scan s lx ts last)
    (ha : Aligned n lx lx') :
    ∃ us last', Scan s lx' us last' ∧ Aligned n last last' ∧
      List.Forall₂ (fun t u => t.Relocated (.shift n) u ∧ u.text = t.text) ts us := by
  induction h generalizing lx' with
  | nil => exact ⟨[], lx', .nil, ha, .nil⟩
  | @cons s lx t mid ts last ht hk hts ih =>
    obtain ⟨u, mid', hu, hmid, htu, htext⟩ := ha.token ht
    obtain ⟨us, last', hus, hlast, hall⟩ := ih hmid
    rw [← Schedule.after_congr htu.kind_eq] at hus
    exact ⟨u :: us, last', .cons hu (by rw [htu.kind_eq]; exact hk) hus, hlast,
      .cons ⟨htu, htext⟩ hall⟩

/-- Behind a complete text and a line feed a lexer stands as in a text of its own. -/
theorem Scan.aligned_lineFeed {arrows : Bool} {source : List Char} {s : Schedule} {t : Token}
    {ts : List Token} {here : Lexer} (h : Scan s (.ofSource arrows source) ts here)
    (ht : here.next mode = (.ok t, last)) (hend : t.kind = .endOfInput) (more : List Char) :
    Aligned (byteLength source + 1) (.ofSource arrows more) (here.append ('\n' :: more)) := by
  refine ⟨h.arrows_eq, ?_⟩
  have hgap := (isLastGap_of_end ht hend).append_lineFeed
  have hplace : here.cursor.offset + byteLength (here.cursor.rest ++ ['\n']) =
      0 + (byteLength source + 1) := by
    have hrest : source = _ := h.rest_eq
    have hfeed : Char.utf8Size '\n' = 1 := rfl
    rw [h.offset_ofSource, hrest]
    simp only [byteLength_append, byteLength_cons, byteLength_nil, hfeed]
    omega
  have hcursor : (here.append ('\n' :: more)).cursor =
      ⟨here.cursor.offset, (here.cursor.rest ++ ['\n']) ++ more⟩ := by
    rw [List.append_assoc]
    rfl
  rw [hcursor, Cursor.skipTrivia_gap hgap, hplace]
  exact Cursor.skipTrivia_shift _ (.start more)

end Lexer

/-! ## Parsing on -/

/-- `Continues n first r r'`: the result `r'` is `r` with everything `n` bytes further on and, if
that is a tree, with the forms and tokens of `first` in front. -/
inductive Continues (n : Nat) (first : SyntaxTree) :
    Except SyntaxError SyntaxTree → Except SyntaxError SyntaxTree → Prop
  | tree {tree tree' : SyntaxTree}
      (hforms : tree'.forms = first.forms ++ tree.forms.map (Node.relocate (.shift n)))
      (hkinds : tree'.tokens.map Token.kind =
        first.tokens.map Token.kind ++ tree.tokens.map Token.kind) :
      Continues n first (.ok tree) (.ok tree')
  | error {e : SyntaxError} : Continues n first (.error e) (.error (e.relocate (.shift n)))

namespace Parser

variable {n : Nat} {p q : Parser} {lx lx' : Lexer} {t : Token}

/-- Between two forms a parser is a new one but for what it has completed. -/
theorem eq_relocate_of_isIdle {d : Nat} {ts : List Token} (h : (initial d).readAll ts = .ok p)
    (hp : p.isIdle = true) (r : Relocation) :
    p = (initial d).relocate r p.root.children p.tokens := by
  have hdepth := maxDepth_of_readAll h
  have hkind := rootKind_of_readAll h
  obtain ⟨d', ⟨kind, children⟩, tokens, enclosing, focus⟩ := p
  cases focus with
  | expression =>
    obtain rfl := List.isEmpty_iff.1 hp
    simp only at hdepth hkind
    subst hdepth hkind
    simp [relocate, initial, NodeBuilder.empty, relocateForms, Focus.relocate]
  | _ => cases hp

/-- What ends one run ends the other. -/
theorem exists_ending_relocate {r : Except SyntaxError SyntaxTree} (h : Ending q lx r)
    (ha : Lexer.Aligned n lx lx') (front : Array (Option Field × Node)) (ts : Array Token) :
    ∃ r', Ending (q.relocate (.shift n) front ts) lx' r' ∧
      ((∃ e, r = .error e ∧ r' = .error (e.relocate (.shift n))) ∨
        ∃ t u, r = .ok (q.tree t) ∧ r' = .ok ((q.relocate (.shift n) front ts).tree u)) := by
  have hidle := isIdle_relocate (r := .shift n) front ts q
  have hmode := mode_relocate (r := .shift n) front ts q
  cases h with
  | lexical he =>
    rw [← hmode] at he
    obtain ⟨last', he'⟩ := ha.error he
    exact ⟨_, .lexical he', Or.inl ⟨_, rfl, rfl⟩⟩
  | finished ht hp hk =>
    rw [← hmode] at ht
    obtain ⟨u, last', hu, -, htu, -⟩ := ha.token ht
    exact ⟨_, .finished hu (hidle.trans hp) (htu.kind_eq.trans hk), Or.inr ⟨_, u, rfl, rfl⟩⟩
  | refused ht he hk =>
    rw [← hmode] at ht
    obtain ⟨u, last', hu, -, htu, htext⟩ := ha.token ht
    have hrefusal := refusal_relocate front ts (refusal_of_read he) htu htext
    refine ⟨_, .refused hu (read_of_refusal hrefusal) ?_, Or.inl ⟨_, rfl, rfl⟩⟩
    rw [hidle, htu.kind_eq]
    exact hk

end Parser

variable {settings : Settings} {source : List Char} {tree : SyntaxTree}

/-- What follows a complete text behind a line feed is read as if it stood alone: with the same
error further on, or with the same forms and tokens further on. -/
theorem parse_append_lineFeed_cases (h : parse settings source = .ok tree) (more : List Char) :
    (∃ e, parse settings more = .error e ∧ parse settings (source ++ '\n' :: more) =
        .error (e.relocate (.shift (byteLength source + 1)))) ∨
      ∃ next joined later, parse settings more = .ok next ∧
        parse settings (source ++ '\n' :: more) = .ok joined ∧
        joined.root.labelled = tree.root.labelled ++
          next.root.labelled.map (Node.relocateChild (.shift (byteLength source + 1))) ∧
        joined.tokens = tree.tokens ++ later ∧
        List.Forall₂ (fun t u => t.Relocated (.shift (byteLength source + 1)) u ∧ u.text = t.text)
          next.tokens later := by
  obtain ⟨p, here, last, t, hts, hp, hidle, ht, hend, rfl⟩ := exists_scan_of_parse h
  -- Behind the first text the parser stands between two forms, before the gap that ends the text.
  have hrun : parse settings (source ++ '\n' :: more) = p.run (here.append ('\n' :: more)) :=
    Parser.run_of_scan (hts.append isNameBody_lineFeed) hp
  -- The second text is read as if it stood alone.
  obtain ⟨us, q, there, hus, hq, hending⟩ := parse_ending settings more
  obtain ⟨vs, there', hvs, hthere, hall⟩ := hus.exists_aligned (hts.aligned_lineFeed ht hend more)
  have hplace := Parser.eq_relocate_of_isIdle hp hidle (.shift (byteLength source + 1))
  have hread := Parser.readAll_relocate p.root.children p.tokens hq (hall.imp fun _ _ => And.left)
  rw [← hplace] at hread
  obtain ⟨r', hr', hcases⟩ :=
    Parser.exists_ending_relocate hending hthere p.root.children (p.tokens ++ vs.toArray)
  have hschedule : p.schedule = .initial := by
    rw [hplace]
    rfl
  rw [← hschedule] at hvs
  rw [hrun, Parser.run_of_scan hvs hread, Parser.run_of_ending hr']
  rcases hcases with ⟨e, he, rfl⟩ | ⟨t', u, hparse, rfl⟩
  · exact Or.inl ⟨e, he, rfl⟩
  · have htokens : (q.tree t').tokens = us := Parser.tokens_of_readAll hq
    refine Or.inr ⟨_, _, vs, hparse, rfl, ?_, ?_, by rwa [htokens]⟩
    · simp [Parser.tree, Parser.relocate, NodeBuilder.finish, Node.labelled]
    · simp [Parser.tree, Parser.relocate]

/-- **Concatenation.**  Parsing what follows a complete text behind a line feed goes as if it stood
alone. -/
theorem parse_append_lineFeed (h : parse settings source = .ok tree) (more : List Char) :
    Continues (byteLength source + 1) tree (parse settings more)
      (parse settings (source ++ '\n' :: more)) := by
  rcases parse_append_lineFeed_cases h more with
    ⟨e, he, he'⟩ | ⟨next, joined, later, hnext, hjoined, hlabelled, htokens, hlater⟩
  · rw [he, he']
    exact .error
  · rw [hnext, hjoined]
    refine .tree ?_ ?_
    · simp [SyntaxTree.forms, Node.children, hlabelled, Node.relocateChild]
    · rw [htokens, List.map_append, kinds_relocated (hlater.imp fun _ _ => And.left)]

/-! ## A line feed at the end -/

/-- A text of blanks and comments holds no form. -/
theorem exists_tree_of_lastGap (settings : Settings) {w : List Char} (h : IsLastGap w) :
    ∃ tree, parse settings w = .ok tree ∧ tree.forms = [] ∧ tree.tokens = [] := by
  obtain ⟨t, last, ht, hend⟩ : ∃ t last, (Lexer.ofSource settings.arrows w).next .plain =
    (.ok t, last) ∧ t.kind = .endOfInput := Lexer.exists_end_of_lastGap .plain h
  exact ⟨_, Parser.run_of_ending (.finished ht rfl hend), rfl, rfl⟩

/-- **A line feed at the end.**  It changes neither whether a text is complete, nor its forms, nor
whether its error is for want of input. -/
theorem parse_lineFeed_cases (settings : Settings) (source : List Char) :
    (∃ tree tree', parse settings source = .ok tree ∧
        parse settings (source ++ ['\n']) = .ok tree' ∧ tree'.forms = tree.forms ∧
        tree'.tokens.map Token.kind = tree.tokens.map Token.kind) ∨
      ∃ e e', parse settings source = .error e ∧ parse settings (source ++ ['\n']) = .error e' ∧
        e'.isIncomplete = e.isIncomplete := by
  have hverdict := verdict_append_lineEnd settings source isLineEnd_lineFeed
  rw [verdict, verdict] at hverdict
  generalize parse settings source = r at hverdict ⊢
  generalize parse settings (source ++ ['\n']) = r' at hverdict ⊢
  cases r with
  | ok tree =>
    cases r' with
    | ok tree' =>
      obtain ⟨hforms, htokens⟩ := Verdict.program.inj hverdict
      exact Or.inl ⟨tree, tree', rfl, rfl, hforms, congrArg (List.map Token.kind) htokens⟩
    | error e' => exact absurd hverdict (Verdict.ofParse_error_ne_program e' _ _)
  | error e =>
    cases r' with
    | ok tree' => exact absurd hverdict.symm (Verdict.ofParse_error_ne_program e _ _)
    | error e' =>
      refine Or.inr ⟨e, e', rfl, rfl, ?_⟩
      rw [Bool.eq_iff_iff, ← Verdict.ofParse_error_eq_incomplete_iff, hverdict,
        Verdict.ofParse_error_eq_incomplete_iff]

/-- A text that is complete with its line feed can be read first, and what follows by itself. -/
theorem continues_of_parse_lineFeed (h : parse settings (source ++ ['\n']) = .ok tree)
    (more : List Char) :
    Continues (byteLength source + 1) tree (parse settings more)
      (parse settings (source ++ '\n' :: more)) := by
  rcases parse_lineFeed_cases settings source with ⟨first, tree', h₁, h₂, hf, hk⟩ | ⟨_, _, _, h₂, _⟩
  · rw [h] at h₂
    cases h₂
    have hon := parse_append_lineFeed h₁ more
    generalize parse settings more = r at hon
    generalize parse settings (source ++ '\n' :: more) = r' at hon
    cases hon with
    | tree hforms hkinds => exact .tree (by rw [hf]; exact hforms) (by rw [hk]; exact hkinds)
    | error => exact .error
  · rw [h] at h₂
    cases h₂

/-- A text that is rejected with its line feed is rejected whatever follows. -/
theorem exists_error_of_parse_lineFeed {e : SyntaxError}
    (h : parse settings (source ++ ['\n']) = .error e) (he : e.isIncomplete = false)
    (more : List Char) :
    ∃ e', parse settings (source ++ '\n' :: more) = .error e' ∧ e'.isIncomplete = false := by
  rcases parse_lineFeed_cases settings source with ⟨_, _, _, h₂, _⟩ | ⟨e₁, e₂, h₁, h₂, heq⟩
  · rw [h] at h₂
    cases h₂
  · rw [h] at h₂
    cases h₂
    exact exists_error_of_parse_append h₁ (heq.symm.trans he) isNameBody_lineFeed

end PieSyntax
