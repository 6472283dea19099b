/-
# The arrow as a name

Under the settings in which the arrow is no keyword it is a name, and nothing else is lexed in
another way.  Main statements: the two lexers take the same tokens but for the class of the arrow
(`Lexer.next_demote`, `Lexer.Scan.demote`), and a source in which no arrow stands at a head parses
the same under either setting (`parse_eq_of_arrowFree`).
-/
import PieSyntax.Proofs.Gaps

namespace PieSyntax

/-! ## Tokens without the keyword -/

/-- The class of a token where the arrow is a name. -/
def TokenKind.demote : TokenKind → TokenKind
  | .keyword .arrow => .identifier
  | kind => kind

/-- The token where the arrow is a name. -/
def Token.demote (t : Token) : Token := { t with kind := t.kind.demote }

theorem TokenKind.demote_of_ne {k : TokenKind} (h : k ≠ .keyword .arrow) : k.demote = k := by
  cases k with
  | keyword word =>
    cases word with
    | arrow => exact absurd rfl h
    | _ => rfl
  | _ => rfl

theorem Token.demote_of_ne {t : Token} (h : t.kind ≠ .keyword .arrow) : t.demote = t := by
  rw [demote, TokenKind.demote_of_ne h]

/-- Only the arrow and names become names. -/
theorem TokenKind.demote_eq_iff {k j : TokenKind} (hj : j ≠ .identifier) (ha : j ≠ .keyword .arrow) :
    k.demote = j ↔ k = j := by
  by_cases hk : k = .keyword .arrow
  · rw [hk]
    exact iff_of_false hj.symm ha.symm
  · rw [demote_of_ne hk]

/-- Tokens without arrows stay as they are. -/
theorem map_demote_eq_self {ts : List Token} (h : ∀ t ∈ ts, t.kind ≠ .keyword .arrow) :
    ts.map Token.demote = ts := by
  conv_rhs => rw [← List.map_id ts]
  exact List.map_congr_left fun t ht => Token.demote_of_ne (h t ht)

/-! ## Lexers without the keyword -/

theorem allows_of_ne_arrow {word : Keyword} (h : word ≠ .arrow) (arrows : Bool) (mode : LexMode) :
    mode.allows false word = mode.allows arrows word := by
  cases word with
  | arrow => exact absurd rfl h
  | _ => cases mode <;> rfl

/-- A run is classified as before, but for the arrow. -/
theorem classifyName_demote (arrows : Bool) (mode : LexMode) (run : List Char) :
    classifyName false mode run = (classifyName arrows mode run).demote := by
  rw [classifyName, classifyName]
  cases Keyword.ofSpelling? run with
  | none => rfl
  | some word =>
    by_cases hw : word = .arrow
    · subst hw
      have hnever : mode.allows false .arrow = false := by cases mode <;> rfl
      simp only [hnever, Bool.false_eq_true, if_false]
      split <;> rfl
    · simp only [allows_of_ne_arrow hw arrows]
      split
      · exact (TokenKind.demote_of_ne fun h => hw (TokenKind.keyword.inj h)).symm
      · rfl

/-- Without the keyword the same lexemes are found, and the arrow is a name. -/
theorem lexeme_demote (arrows : Bool) (mode : LexMode) (text : List Char) :
    lexeme false mode text = (lexeme arrows mode text).map fun r => (r.1.demote, r.2) := by
  cases text with
  | nil => rfl
  | cons c rest =>
    rw [lexeme, lexeme, allows_of_ne_arrow (show Keyword.lambda ≠ .arrow by simp) arrows]
    split
    · rfl
    split
    · rfl
    split
    · split <;> rfl
    split
    · rfl
    simp only [classifyName_demote arrows]
    split
    · rfl
    split <;> rfl

namespace Lexer

/-- The lexer to which the arrow is a name. -/
def demote (lx : Lexer) : Lexer := { lx with arrows := false }

/-- **Tokens.**  Without the keyword the same tokens are taken, and the arrow is a name. -/
theorem next_demote (lx : Lexer) (mode : LexMode) :
    lx.demote.next mode = ((lx.next mode).1.map Token.demote, (lx.next mode).2.demote) := by
  simp only [next, demote, lexeme_demote lx.arrows]
  cases lexeme lx.arrows mode lx.cursor.skipTrivia.2.rest <;> rfl

/-- The schedule does not depend on the keyword. -/
theorem Schedule.after_demote (s : Schedule) (t : Token) : s.after t.demote = s.after t := by
  by_cases ht : t.kind = .keyword .arrow
  · simp [Schedule.after, Token.demote, TokenKind.demote, ht]
  · rw [Token.demote_of_ne ht]

/-- **Scans.**  Without the keyword the same tokens are scanned, and the arrow is a name. -/
theorem Scan.demote {s : Schedule} {lx last : Lexer} {ts : List Token} (h : Scan s lx ts last) :
    Scan s lx.demote (ts.map Token.demote) last.demote := by
  induction h with
  | nil => exact .nil
  | @cons s lx t mid ts last ht hk _ ih =>
    rw [← Schedule.after_demote] at ih
    refine .cons ?_ ?_ ih
    · rw [next_demote, ht]
      rfl
    · rwa [Ne, Token.demote, TokenKind.demote_eq_iff (by simp) (by simp)]

end Lexer

/-! ## Sources without an arrow at a head -/

/-- No arrow stands right behind a parenthesis of `source`, save one that holds the arguments of a
lambda. -/
def ArrowFree (source : List Char) : Prop :=
  ∀ ts last, Lexer.Scan .initial (.ofSource false source) ts last →
    ∀ before opening t after, ts = before ++ opening :: t :: after → opening.kind = .leftParen →
      t.text ∈ Keyword.arrow.spellings →
        ∃ first word, before = first ++ [word] ∧ word.kind = .keyword .lambda

/-- It is enough to look at every token behind a parenthesis. -/
theorem ArrowFree.of_isChain {source : List Char} {ts : List Token}
    (h : tokenize false source = .ok ts) (hts : ts.IsChain fun opening t =>
      opening.kind = .leftParen → t.text ∉ Keyword.arrow.spellings) : ArrowFree source := by
  intro us last hscan before opening t after hcut hopening htext
  rw [tokenize, hscan.tokensFrom_eq, hcut] at h
  generalize Lexer.tokensFrom _ last = rest at h
  cases rest with
  | error e => cases h
  | ok rest =>
    cases h
    simp only [List.append_assoc, List.cons_append, List.isChain_append_cons_cons] at hts
    exact absurd htext (hts.2.1 hopening)

/-- In such a source the arrow is never a keyword. -/
theorem ArrowFree.kind_ne {source : List Char} (h : ArrowFree source) {last : Lexer}
    {ts : List Token} (hts : Lexer.Scan .initial (.ofSource true source) ts last) :
    ∀ t ∈ ts, t.kind ≠ .keyword .arrow := by
  intro t ht harrow
  obtain ⟨past, after, rfl⟩ := List.append_of_mem ht
  obtain ⟨here, next, -, -, took, -⟩ := hts.cut
  have hadmits := admits_of_lexeme took.lexeme_eq
  have htext := took.text_mem_spellings harrow
  have hmode : (Lexer.Schedule.initial.afterAll past).mode ≠ .plain := by
    intro hplain
    rw [hplain, harrow] at hadmits
    cases hadmits
  obtain ⟨before, opening, rfl, hopening, hbefore⟩ := Lexer.exists_opening_of_mode hmode
  -- The same place in the source where the arrow is a name.
  have hdemoted := hts.demote
  have hcut : (before ++ [opening] ++ t :: after).map Token.demote =
      before.map Token.demote ++ opening.demote :: t.demote :: after.map Token.demote := by
    simp
  obtain ⟨first, word, hfirst, hword⟩ := h _ _ hdemoted _ _ _ _ hcut
    ((TokenKind.demote_eq_iff (by simp) (by simp)).2 hopening) htext
  obtain ⟨first', rest, rfl, -, hrest⟩ := List.map_eq_append_iff.1 hfirst
  obtain ⟨word', rfl, hdemote⟩ := List.map_eq_singleton_iff.1 hrest
  refine hbefore first' word' rfl ?_
  rw [← hdemote] at hword
  exact (TokenKind.demote_eq_iff (by simp) (by simp)).1 hword

/-- **No arrow at a head.**  Such a source parses the same whether the arrow is a keyword or not. -/
theorem parse_eq_of_arrowFree {source : List Char} (h : ArrowFree source) (maxDepth : Nat) :
    parse ⟨.application, maxDepth⟩ source = parse ⟨.production, maxDepth⟩ source := by
  obtain ⟨ts, q, here, hts, hq, hend⟩ := parse_ending ⟨.production, maxDepth⟩ source
  have hdemoted := hts.demote
  -- No token that has been read is an arrow, so that both parsers have read the same tokens.
  rw [map_demote_eq_self (h.kind_ne hts)] at hdemoted
  have hrun : parse ⟨.application, maxDepth⟩ source = q.run here.demote :=
    Parser.run_of_scan hdemoted hq
  rw [hrun]
  refine Parser.run_of_ending ?_
  generalize parse ⟨.production, maxDepth⟩ source = r at hend
  cases hend with
  | @lexical e last he =>
    have he' := here.next_demote q.mode
    rw [he] at he'
    exact .lexical he'
  | @finished t last ht hp hk =>
    have ht' := here.next_demote q.mode
    have hdemote : t.demote = t := Token.demote_of_ne (by rw [hk]; simp)
    rw [ht] at ht'
    rw [← hdemote] at hk ⊢
    exact .finished ht' hp hk
  | @refused t last e ht he hk =>
    have ht' := here.next_demote q.mode
    have hne : t.kind ≠ .keyword .arrow := by
      by_cases htend : t.kind = .endOfInput
      · rw [htend]
        simp
      · rw [← Parser.mode_of_readAll hq] at ht
        exact h.kind_ne (hts.concat ht htend) t (by simp)
    rw [ht, Except.map, Token.demote_of_ne hne] at ht'
    exact .refused ht' he hk

end PieSyntax
