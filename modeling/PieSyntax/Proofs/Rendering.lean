/-
# Programs written anew

The gaps between tokens and the choice among the spellings of a keyword carry no meaning.  A text is
written anew from tokens (`Renders`) when each token stands there in its own words, or a keyword in
any of its spellings, and gaps separate them.  Main statement: what is written anew from the tokens
of a program is a program with the same tree (`parse_of_renders`).
-/
import PieSyntax.Proofs.Gaps
import PieSyntax.Proofs.Language
import PieSyntax.Proofs.Relocation

namespace PieSyntax

open Text

/-! ## Renderings -/

/-- What may be written for a token: its own text or, if it is a keyword, any spelling of that. -/
def Token.MayRead (t : Token) (u : List Char) : Prop :=
  u = t.text ∨ ∃ word, t.kind = .keyword word ∧ u ∈ word.spellings

/-- `RendersOn ts text`: behind a token, `text` holds the tokens `ts`, each behind a gap that
separates it from the one before, and then a last gap. -/
inductive RendersOn : List Token → List Char → Prop
  | nil {w} (hw : IsLastGap w) : RendersOn [] w
  | cons {t ts w u text} (hw : IsGap w) (hne : w ≠ []) (hu : t.MayRead u)
      (htext : RendersOn ts text) : RendersOn (t :: ts) (w ++ (u ++ text))

/-- `Renders ts text`: the tokens `ts` are written anew as `text`. -/
inductive Renders : List Token → List Char → Prop
  | nil {w} (hw : IsLastGap w) : Renders [] w
  | cons {t ts w u text} (hw : IsGap w) (hu : t.MayRead u) (htext : RendersOn ts text) :
      Renders (t :: ts) (w ++ (u ++ text))

theorem RendersOn.renders {ts : List Token} {text : List Char} (h : RendersOn ts text) :
    Renders ts text := by
  cases h with
  | nil hw => exact .nil hw
  | cons hw _ hu htext => exact .cons hw hu htext

/-- Behind a token no name goes on. -/
theorem RendersOn.head {ts : List Token} {text : List Char} (h : RendersOn ts text) :
    ∀ c ∈ text.head?, isNameBody c = false := by
  cases h with
  | nil hw => exact hw.head
  | cons hw hne =>
    rw [List.head?_append_of_ne_nil _ hne]
    exact hw.isLastGap.head

/-! ## Scanning anew -/

/-- No spelling of a keyword begins like a gap. -/
theorem head_of_spelling {word : Keyword} {u : List Char} (hu : u ∈ word.spellings) :
    u ≠ [] ∧ ∀ c ∈ u.head?, isBlank c = false ∧ c ≠ ';' := by
  have hall : ∀ word ∈ Keyword.all, ∀ u ∈ word.spellings,
      u ≠ [] ∧ u.head?.all (fun c => !isBlank c && c != ';') = true := by decide
  obtain ⟨hne, hhead⟩ := hall word (by cases word <;> decide) u hu
  exact ⟨hne, by simpa [Option.all_eq_true] using hhead⟩

namespace Lexer

variable {lx last : Lexer} {mode : LexMode} {t : Token}

/-- What may be written for a token is a lexeme of its class, and no gap. -/
theorem lexeme_of_mayRead {u : List Char} (ht : lx.next mode = (.ok t, last))
    (hk : t.kind ≠ .endOfInput) (hu : t.MayRead u) :
    lexeme lx.arrows mode u = .ok (t.kind, u.length) ∧ u ≠ [] ∧
      ∀ c ∈ u.head?, isBlank c = false ∧ c ≠ ';' := by
  have took := took_of_next ht
  rcases hu with rfl | ⟨word, hword, hu⟩
  · have hne := took.text_ne_nil hk
    have htrivia := Cursor.trivia?_eq_none_iff.1 took.leading_run.trivia?_rest
    rw [List.head?_append_of_ne_nil _ hne] at htrivia
    exact ⟨lexeme_of_append hne took.lexeme_eq, hne, htrivia⟩
  · have hm := admits_of_lexeme took.lexeme_eq
    rw [hword] at hm ⊢
    exact ⟨lexeme_of_spelling hu hm, head_of_spelling hu⟩

/-- What is written for a token, behind a gap and before text that continues no name, is lexed as a
token of the same class. -/
theorem exists_next_of_mayRead {u w text : List Char} (ht : lx.next mode = (.ok t, last))
    (hk : t.kind ≠ .endOfInput) (hu : t.MayRead u) (hw : IsGap w)
    (htext : ∀ c ∈ text.head?, isNameBody c = false) (o : Nat) :
    ∃ v o', next ⟨lx.arrows, ⟨o, w ++ (u ++ text)⟩⟩ mode = (.ok v, ⟨lx.arrows, ⟨o', text⟩⟩) ∧
      t.Relocated .nowhere (v.relocate .nowhere) := by
  obtain ⟨hlexeme, hne, hhead⟩ := lexeme_of_mayRead ht hk hu
  have htrivia : Cursor.trivia? (u ++ text) = none :=
    Cursor.trivia?_append_of_none text hne (Cursor.trivia?_eq_none_iff.2 hhead)
  rw [← lexeme_append hne htext] at hlexeme
  obtain ⟨v, o', hv, hkind, hvtext⟩ := exists_next_of_gap hw hlexeme htrivia o
  refine ⟨v, o', hv, hkind, rfl, fun hword => ?_⟩
  show v.text = t.text
  rw [hvtext]
  rcases hu with rfl | ⟨word, hkeyword, -⟩
  · rfl
  · exact absurd hkeyword (hword word)

/-- A text written anew from the tokens of a scan has a scan of the same tokens. -/
theorem Scan.exists_rendered {s : Schedule} {ts : List Token} {text : List Char}
    (h : Scan s lx ts last) (hr : Renders ts text) (o : Nat) :
    ∃ us last', Scan s ⟨lx.arrows, ⟨o, text⟩⟩ us last' ∧ IsLastGap last'.cursor.rest ∧
      List.Forall₂ (fun t u => t.Relocated .nowhere (u.relocate .nowhere)) ts us := by
  induction h generalizing text o with
  | nil =>
    cases hr with
    | nil hw => exact ⟨[], _, .nil, hw, .nil⟩
  | @cons s lx t mid ts last ht hk hts ih =>
    cases hr with
    | cons hw hu htext =>
      obtain ⟨v, o', hv, htv⟩ := exists_next_of_mayRead ht hk hu hw htext.head o
      obtain ⟨us, last', hus, hlast, hall⟩ := ih htext.renders o'
      have hkind : v.kind = t.kind := htv.kind_eq
      rw [← Schedule.after_congr hkind, arrows_of_next ht] at hus
      exact ⟨v :: us, last', .cons hv (by rw [hkind]; exact hk) hus, hlast, .cons htv hall⟩

end Lexer

/-! ## The tree -/

/-- Parsers that have read the same tokens at different places differ in places only. -/
theorem root_relocate_of_readAll {p q q' : Parser} {ts us : List Token} {r : Relocation}
    (hq : p.readAll ts = .ok q) (hq' : p.readAll us = .ok q')
    (hall : List.Forall₂ (fun t u => t.Relocated r (u.relocate r)) ts us) :
    q'.root.relocate r = q.root.relocate r := by
  have hts : List.Forall₂ (Token.Relocated r) ts (us.map (Token.relocate r)) :=
    List.forall₂_map_right_iff.2 hall
  have hus : List.Forall₂ (Token.Relocated r) us (us.map (Token.relocate r)) :=
    List.forall₂_map_right_iff.2 (List.forall₂_same.2 fun u _ => u.relocated_relocate r)
  have hread := Parser.readAll_relocate #[] #[] hq hts
  have hread' := Parser.readAll_relocate #[] #[] hq' hus
  rw [hread] at hread'
  have hroot := congrArg Parser.root (Except.ok.inj hread')
  simp only [Parser.relocate, Array.empty_append] at hroot
  exact hroot.symm

/-- **Layout.**  What is written anew from the tokens of a program is a program with the same tree
but for places. -/
theorem parse_of_renders {settings : Settings} {source text : List Char} {tree : SyntaxTree}
    (h : parse settings source = .ok tree) (hr : Renders tree.tokens text) :
    ∃ tree', parse settings text = .ok tree' ∧
      tree'.root.relocate .nowhere = tree.root.relocate .nowhere ∧
      tree'.tokens.map Token.kind = tree.tokens.map Token.kind := by
  obtain ⟨q, here, last, t, hts, hq, hidle, ht, hend, htree⟩ := exists_scan_of_parse h
  obtain ⟨us, here', hus, hlast, hall⟩ := hts.exists_rendered hr 0
  have hkinds : us.map Token.kind = tree.tokens.map Token.kind := by
    have hmap := kinds_relocated (List.forall₂_map_right_iff.2 hall)
    rw [List.map_map] at hmap
    exact hmap
  -- The new text has all tokens of a program, so that it is one.
  have htokens : ∃ u, tokenize settings.arrows text = .ok (us ++ [u]) := by
    have hrest := Cursor.rest_skipTrivia_lastGap hlast here'.cursor.offset
    obtain ⟨u, last', hu, huend⟩ :=
      Lexer.exists_end_of_rest_eq_nil (Lexer.Schedule.initial.afterAll us).mode hrest
    refine ⟨u, ?_⟩
    have htail := Lexer.tokensFrom_of_end (congrArg Prod.fst hu) huend
    exact hus.tokensFrom_eq.trans (by rw [htail]; rfl)
  obtain ⟨u, hu⟩ := htokens
  obtain ⟨tree', h'⟩ := exists_tree_of_derives hu (by rw [hkinds]; exact derives_of_parse h)
    (by rw [hkinds]; exact nested_of_parse h)
  -- Both programs are read by the same steps.
  obtain ⟨q', there, last', t', -, hq', -, -, -, htree'⟩ := exists_scan_of_parse h'
  have hsame : tree'.tokens = us := by
    have hall := tokenize_of_parse h'
    rw [hu] at hall
    exact (List.append_inj' (Except.ok.inj hall) rfl).1.symm
  rw [hsame] at hq'
  refine ⟨tree', h', ?_, by rw [hsame, hkinds]⟩
  rw [htree, htree']
  show (q'.root.finish _).relocate _ = (q.root.finish _).relocate _
  rw [NodeBuilder.relocate_finish, NodeBuilder.relocate_finish,
    root_relocate_of_readAll hq hq' hall]
  rfl

/-- A lambda without arguments, with another spelling of its keyword and a comment at either end. -/
theorem parse_of_renders_lambda :
    ∃ tree tree', parse {} "(λ () x)".toList = .ok tree ∧
      parse {} "; f\n( \\ ( ) x ) ; g".toList = .ok tree' ∧
      tree'.root.relocate .nowhere = tree.root.relocate .nowhere := by
  have htokens : (parse {} "(λ () x)".toList).toOption.map SyntaxTree.tokens =
      some [⟨.leftParen, ['('], ⟨0, 1⟩, []⟩, ⟨.keyword .lambda, ['λ'], ⟨1, 3⟩, []⟩,
        ⟨.leftParen, ['('], ⟨4, 5⟩, [⟨.blank, [' '], ⟨3, 4⟩⟩]⟩, ⟨.rightParen, [')'], ⟨5, 6⟩, []⟩,
        ⟨.identifier, ['x'], ⟨7, 8⟩, [⟨.blank, [' '], ⟨6, 7⟩⟩]⟩,
        ⟨.rightParen, [')'], ⟨8, 9⟩, []⟩] := by decide +kernel
  obtain ⟨tree, htree, htokens⟩ := Option.map_eq_some_iff.1 htokens
  have hspace : IsGap [' '] := .of_blanks (List.forall_mem_singleton.2 (by decide))
  have hne : [' '] ≠ [] := List.cons_ne_nil _ _
  have hline : ∀ c ∈ [' ', 'f'], ¬ EndsLine c := by simp [EndsLine]
  have hlast : ∀ c ∈ [' ', 'g'], ¬ EndsLine c := by simp [EndsLine]
  have hr : Renders tree.tokens "; f\n( \\ ( ) x ) ; g".toList := by
    rw [htokens]
    exact .cons (w := "; f\n".toList) (.comment hline (Or.inl rfl) .nil) (Or.inl rfl) <|
      .cons (u := ['\\']) hspace hne (Or.inr ⟨.lambda, rfl, by decide⟩) <|
      .cons hspace hne (Or.inl rfl) <| .cons hspace hne (Or.inl rfl) <|
      .cons hspace hne (Or.inl rfl) <| .cons hspace hne (Or.inl rfl) <|
      .nil (.blank (c := ' ') rfl (.last hlast))
  have h := eq_ok_of_toOption htree
  obtain ⟨tree', h', hroot, -⟩ := parse_of_renders h hr
  exact ⟨tree, tree', h, h', hroot⟩

end PieSyntax
