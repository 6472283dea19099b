/-
# Trees lose nothing

A tree keeps all of its source: the tokens, and between them the blanks and comments.  Main statement:
the pieces of the tree of a source tile the source, each of them is the text at its place, and they
are cut where blank runs and comments end (`parse_lossless`), so that no source is ever said to be
written in another way than it was read (`roundTrip_not_mem_reported`).
-/
import PieSyntax.Proofs.Agreement
import PieSyntax.CommandLine

namespace PieSyntax

open Text

/-! ## The pieces of a tree -/

namespace SyntaxTree

/-- The trivia before each token, and those behind the last. -/
def triviaLists (tree : SyntaxTree) : List (List Trivia) :=
  tree.tokens.map Token.leading ++ [tree.trailing]

/-- All pieces in the order of the source. -/
def pieces (tree : SyntaxTree) : List Piece :=
  tree.tokens.flatMap Token.pieces ++ tree.trailing.map Trivia.piece

end SyntaxTree

namespace Trivia

/-- `x` stands in `source` between the texts `before` and `after`. -/
def Between (x : Trivia) (source before after : List Char) : Prop :=
  source = before ++ x.text ++ after ∧ x.span.start = byteLength before

/-- `x` is a run of blanks of `source` that no blank follows or precedes. -/
def IsMaximalRun (x : Trivia) (source : List Char) : Prop :=
  ∃ before after, x.Between source before after ∧ (∀ c ∈ x.text, isBlank c = true) ∧
    (∀ c ∈ after.head?, isBlank c = false) ∧ ∀ c ∈ before.getLast?, isBlank c = false

/-- `x` is a run of blanks of `source` that no blank follows, and if one precedes it, it is the last
character of the comment among `xs` that ends there. -/
def IsRunAmong (x : Trivia) (xs : List Trivia) (source : List Char) : Prop :=
  ∃ before after, x.Between source before after ∧ (∀ c ∈ x.text, isBlank c = true) ∧
    (∀ c ∈ after.head?, isBlank c = false) ∧
    ∀ c ∈ before.getLast?, isBlank c = true →
      ∃ y ∈ xs, y.kind = .comment ∧ y.span.stop = x.span.start

end Trivia

/-- Nothing of `source` is lost in `tree`. -/
structure SyntaxTree.Lossless (tree : SyntaxTree) (source : List Char) : Prop where
  source_eq : tree.source = source
  tiles : Tiles 0 tree.pieces (byteLength source)
  slice : ∀ x ∈ tree.pieces, x.span.slice? source = some x.text
  blank : ∀ xs ∈ tree.triviaLists, ∀ x ∈ xs, x.kind = .blank → x.IsRunAmong xs source
  comment : ∀ xs ∈ tree.triviaLists, ∀ x ∈ xs, x.kind = .comment →
    x.text.head? = some ';' ∧ '\n' ∉ x.text ∧ '\r' ∉ x.text
  alternate : ∀ xs ∈ tree.triviaLists, xs.IsChain fun x y => x.kind ≠ y.kind

/-! ## The trivia before one token -/

namespace Lexer

section Leading

variable {arrows : Bool} {source : List Char} {s : Schedule} {here next : Lexer} {ts : List Token}
  {mode : LexMode} {t : Token}

/-- The last character before the trivia of a token is that of another token. -/
theorem not_blank_of_getLast? (hts : Scan s (.ofSource arrows source) ts here) :
    ∀ c ∈ (ts.flatMap Token.source).getLast?, isBlank c = false := by
  rcases List.eq_nil_or_concat ts with rfl | ⟨before, u, rfl⟩
  · intro c hc
    cases hc
  · rw [List.concat_eq_append] at hts ⊢
    obtain ⟨_, _, -, hk, took, -⟩ := hts.cut
    intro c hc
    have hlast : (u.text).getLast? = some c := by
      rw [List.flatMap_append, List.flatMap_singleton, Token.source, ← List.append_assoc,
        List.getLast?_append_of_ne_nil _ (took.text_ne_nil hk)] at hc
      exact hc
    exact took.blank_free c (List.mem_of_getLast? hlast)

/-- Where the trivia `x` of the token `t` stands. -/
theorem between_of_leading (hts : Scan s (.ofSource arrows source) ts here)
    (took : Took here mode t next) {x : Trivia} {l r : List Trivia}
    (hx : t.leading = l ++ x :: r) :
    x.Between source (ts.flatMap Token.source ++ l.flatMap Trivia.text)
      (r.flatMap Trivia.text ++ (t.text ++ next.cursor.rest)) := by
  constructor
  · have hsource : source = ts.flatMap Token.source ++ here.cursor.rest := hts.rest_eq
    rw [hsource, took.rest_eq, Token.source, hx]
    simp only [List.flatMap_append, List.flatMap_cons, List.append_assoc]
  · have htiles := took.leading_tiles
    rw [hx, List.map_append, List.map_cons] at htiles
    have hspan : x.span = _ := htiles.span_eq.1
    have hoffset : here.cursor.offset = 0 + byteLength (ts.flatMap Token.source) := hts.offset_eq
    rw [hspan, byteLength_append, hoffset, Trivia.flatMap_piece, Nat.zero_add]

theorem leading_isRunAmong (hts : Scan s (.ofSource arrows source) ts here)
    (took : Took here mode t next) {x : Trivia} (hx : x ∈ t.leading) (hk : x.kind = .blank) :
    x.IsRunAmong t.leading source := by
  obtain ⟨l, r, hlr, htrivia⟩ := took.leading_run.exists_of_mem hx
  rw [hk] at htrivia
  obtain ⟨hblank, hafter⟩ := blank_of_trivia? htrivia
  refine ⟨_, _, between_of_leading hts took hlr, hblank, hafter, ?_⟩
  intro c hc hb
  rcases List.eq_nil_or_concat l with rfl | ⟨l, y, rfl⟩
  · -- Nothing but the token before could end here, and no token holds a blank.
    rw [List.flatMap_nil, List.append_nil] at hc
    rw [not_blank_of_getLast? hts c hc] at hb
    cases hb
  · -- Neighbouring runs differ in kind, so that the run before is a comment.
    rw [List.concat_eq_append, List.append_assoc] at hlr
    have hrun := took.leading_run
    rw [hlr] at hrun
    have hne := (hrun.drop l).kind_ne
    have htiles := took.leading_tiles
    rw [hlr, List.map_append] at htiles
    refine ⟨y, ?_, ?_, htiles.stop_eq_start⟩
    · rw [hlr]
      exact List.mem_append_right l List.mem_cons_self
    · cases hy : y.kind with
      | blank => exact absurd (hy.trans hk.symm) hne
      | comment => rfl

theorem leading_comment (took : Took here mode t next) {x : Trivia} (hx : x ∈ t.leading)
    (hk : x.kind = .comment) : x.text.head? = some ';' ∧ '\n' ∉ x.text ∧ '\r' ∉ x.text := by
  obtain ⟨l, r, -, htrivia⟩ := took.leading_run.exists_of_mem hx
  rw [hk] at htrivia
  obtain ⟨⟨body, hbody, hn, hr⟩, -⟩ := comment_of_trivia? htrivia
  rw [hbody]
  refine ⟨rfl, ?_, ?_⟩
  · simpa using hn
  · simpa using hr

end Leading

end Lexer

/-! ## Whole trees -/

section Parse

variable {settings : Settings} {source : List Char} {tree : SyntaxTree}

/-- The text of a tree is that of its pieces. -/
theorem SyntaxTree.flatMap_pieces (tree : SyntaxTree) :
    tree.pieces.flatMap Piece.text = tree.source := by
  rw [pieces, List.flatMap_append, List.flatMap_assoc, Trivia.flatMap_piece]
  simp only [Token.flatMap_pieces]
  rfl

theorem source_of_parse (h : parse settings source = .ok tree) : tree.source = source := by
  obtain ⟨q, here, last, t, hts, -, -, ht, hk, rfl⟩ := exists_scan_of_parse h
  have took := Lexer.took_of_next ht
  obtain ⟨htext, hlast⟩ := took.end_of_kind hk
  have hrest := took.rest_eq
  rw [hlast, Token.source, htext, List.append_nil, List.append_nil] at hrest
  have hsource : source = _ := hts.rest_eq
  rw [hrest] at hsource
  exact hsource.symm

theorem tiles_of_parse (h : parse settings source = .ok tree) :
    Tiles 0 tree.pieces (byteLength source) := by
  obtain ⟨q, here, last, t, hts, -, -, ht, hk, rfl⟩ := exists_scan_of_parse h
  have took := Lexer.took_of_next ht
  have htrailing := took.leading_tiles
  rw [Lexer.eq_atEnd hts took hk] at htrailing
  exact tiles_append.2 ⟨_, hts.tiles, htrailing⟩

/-- All trivia of a tree have been taken before some token or the end of the input. -/
theorem exists_took_of_mem_triviaLists (h : parse settings source = .ok tree) {xs : List Trivia}
    (hxs : xs ∈ tree.triviaLists) :
    ∃ ts here mode t next, Lexer.Scan .initial (.ofSource settings.arrows source) ts here ∧
      Lexer.Took here mode t next ∧ t.leading = xs := by
  obtain ⟨q, here, last, u, hts, -, -, hu, -, rfl⟩ := exists_scan_of_parse h
  rcases List.mem_append.1 hxs with hxs | hxs
  · obtain ⟨t, ht, rfl⟩ := List.mem_map.1 hxs
    obtain ⟨before, mid, next, hbefore, -, took⟩ := hts.exists_took ht
    exact ⟨before, mid, _, t, next, hbefore, took, rfl⟩
  · rw [List.mem_singleton.1 hxs]
    exact ⟨_, here, _, u, last, hts, Lexer.took_of_next hu, rfl⟩

theorem lossless_of_parse (h : parse settings source = .ok tree) : tree.Lossless source where
  source_eq := source_of_parse h
  tiles := tiles_of_parse h
  slice := by
    intro x hx
    rw [← source_of_parse h, ← SyntaxTree.flatMap_pieces]
    exact (tiles_of_parse h).slice?_eq hx
  blank := by
    intro xs hxs x hx hk
    obtain ⟨ts, here, mode, t, next, hts, took, rfl⟩ := exists_took_of_mem_triviaLists h hxs
    exact Lexer.leading_isRunAmong hts took hx hk
  comment := by
    intro xs hxs x hx hk
    obtain ⟨ts, here, mode, t, next, hts, took, rfl⟩ := exists_took_of_mem_triviaLists h hxs
    exact Lexer.leading_comment took hx hk
  alternate := by
    intro xs hxs
    obtain ⟨ts, here, mode, t, next, hts, took, rfl⟩ := exists_took_of_mem_triviaLists h hxs
    exact took.leading_run.isChain

end Parse

/-! ## The command -/

/-- When nobody reads the output, only this is reported besides. -/
theorem Performance.mem_reported_onClosedOutput {p : Performance} {f : Failure}
    (h : f ∈ Effect.reported p.onClosedOutput.effects) :
    f ∈ Effect.reported p.effects ∨ f = .unreadable "<stdout>" := by
  have closed : ∀ effects closed : List Effect, Effect.onClosedOutput? effects = some closed →
      f ∈ Effect.reported closed → f ∈ Effect.reported effects ∨ f = .unreadable "<stdout>" := by
    intro effects
    induction effects with
    | nil =>
      intro closed hc
      cases hc
    | cons effect rest ih =>
      intro closed hc hf
      cases effect with
      | write text =>
        cases hc
        exact Or.inr (List.mem_singleton.1 hf)
      | report failure =>
        obtain ⟨closed', hc', rfl⟩ := Option.map_eq_some_iff.1 hc
        rcases List.mem_cons.1 hf with rfl | hf
        · exact Or.inl List.mem_cons_self
        · exact (ih closed' hc' hf).imp_left (List.mem_cons_of_mem _)
  unfold onClosedOutput at h
  cases hc : Effect.onClosedOutput? p.effects with
  | none =>
    rw [hc] at h
    exact Or.inl h
  | some effects =>
    rw [hc] at h
    exact closed _ _ hc h

/-- A file that is checked fails because it cannot be read or because it is no program. -/
theorem ne_roundTrip_of_checkFile {fs : FileSystem} {settings : Settings} {file : String}
    {f : Failure} (h : checkFile fs settings file = .error f) (path : String) (offset : Nat) :
    f ≠ .roundTrip path offset := by
  unfold checkFile at h
  split at h
  · cases h
    exact Failure.noConfusion
  · split at h
    · cases h
      exact Failure.noConfusion
    · cases h

theorem parse_of_checkFile {fs : FileSystem} {settings : Settings} {file : String}
    {source : List Char} {tree : SyntaxTree} (h : checkFile fs settings file = .ok tree)
    (hs : fs.text? file = some source) : parse settings source = .ok tree := by
  unfold checkFile at h
  simp only [hs] at h
  cases hp : parse settings source with
  | error e =>
    rw [hp] at h
    cases h
  | ok found =>
    rw [hp] at h
    cases h
    rfl

theorem roundTrip_not_mem_roundTripCommand (fs : FileSystem) (settings : Settings)
    (file path : String) (offset : Nat) :
    .roundTrip path offset ∉ Effect.reported (roundTripCommand fs settings file).effects := by
  unfold roundTripCommand
  cases hc : checkFile fs settings file with
  | error f =>
    intro h
    exact ne_roundTrip_of_checkFile hc path offset (List.mem_singleton.1 h).symm
  | ok tree =>
    cases hs : fs.text? file with
    | none =>
      intro h
      cases List.mem_singleton.1 h
    | some source =>
      have hsource := source_of_parse (parse_of_checkFile hc hs)
      have hnone : firstDifference? source tree.source = none := by
        rw [hsource, firstDifference?, if_pos rfl]
      simp only [hnone, Performance.writing, Effect.writeAll]
      split <;> simp [Effect.reported]

/-- The command that compares a file with its tree never finds a difference. -/
theorem roundTrip_not_mem_reported (s : Surroundings) (settings : Settings) (file path : String)
    (offset : Nat) :
    .roundTrip path offset ∉ Effect.reported (s.perform settings (.roundTrip file)).effects := by
  have hc := roundTrip_not_mem_roundTripCommand s.files settings file path offset
  show _ ∉ Effect.reported (s.finish _).effects
  unfold Surroundings.finish
  cases s.outputOpen with
  | true => exact hc
  | false =>
    intro h
    rcases Performance.mem_reported_onClosedOutput h with h | h
    · exact hc h
    · cases h

/-! ## The whole -/

/-- **Losslessness.**  A tree keeps all of its source, and so no file is ever reported to differ from
its tree. -/
theorem parse_is_lossless (settings : Settings) :
    (∀ source tree, parse settings source = .ok tree → tree.Lossless source) ∧
      ∀ (s : Surroundings) (file path : String) (offset : Nat),
        .roundTrip path offset ∉
          Effect.reported (s.perform settings (.roundTrip file)).effects :=
  ⟨fun _ _ h => lossless_of_parse h,
    fun s file path offset => roundTrip_not_mem_reported s settings file path offset⟩

/-- The blanks, the comment and the tokens of an application with a comment inside. -/
theorem parse_is_lossless_application :
    ∃ tree, parse {} "(f ; λ \n x)".toList = .ok tree ∧ tree.Lossless "(f ; λ \n x)".toList := by
  have hsome : (parse {} "(f ; λ \n x)".toList).toOption.isSome = true := by decide +kernel
  obtain ⟨tree, h⟩ := exists_tree_of_isSome hsome
  exact ⟨tree, h, (parse_is_lossless {}).1 _ _ h⟩

/-- A comment takes the blanks at the end of its line, so that the line feed behind them is a run of
its own. -/
theorem parse_cuts_blanks_after_comment :
    ∃ tree, parse {} "; \n".toList = .ok tree ∧
      ∃ xs ∈ tree.triviaLists, ∃ x ∈ xs, x.kind = .blank ∧ ¬ x.IsMaximalRun "; \n".toList := by
  have hparse : (parse {} "; \n".toList).toOption.map SyntaxTree.trailing =
      some [⟨.comment, [';', ' '], ⟨0, 2⟩⟩, ⟨.blank, ['\n'], ⟨2, 3⟩⟩] := by
    decide +kernel
  obtain ⟨tree, htree, htrailing⟩ := Option.map_eq_some_iff.1 hparse
  refine ⟨tree, ?_, tree.trailing, ?_, ⟨.blank, ['\n'], ⟨2, 3⟩⟩, ?_, rfl, ?_⟩
  · exact eq_ok_of_toOption htree
  · exact List.mem_append_right _ List.mem_cons_self
  · rw [htrailing]
    simp
  · -- The line feed stands behind the blank that ends the comment.
    rintro ⟨before, after, ⟨hsource, hstart⟩, -, -, hbefore⟩
    have hcut := Text.splitBytes?_append before (['\n'] ++ after)
    rw [← List.append_assoc, ← hsource, ← hstart] at hcut
    have hspace : Text.splitBytes? 2 "; \n".toList = some ([';', ' '], ['\n']) := by decide
    rw [hspace] at hcut
    cases hcut
    exact absurd (hbefore ' ' rfl) (by decide)

end PieSyntax
