/-
# Listings

The tokens and the comments of a source can be listed together, without the blanks.  The comments are
taken out of the trivia of the tokens behind them; a scan of the characters finds the same comments,
because a semicolon stands in comments only.  Main statements: the text from a cursor on is the items
that are listed from there, with blanks around them (`Lexer.Scan.listed`), from which follow the places
of the items (`Listed.ordered`), the blanks between them (`Listed.gaps`) and what they leave out
(`Listed.comments`); together they make the listing complete (`listing_is_complete`).
-/
import PieSyntax.Proofs.Agreement
import PieSyntax.Proofs.Gaps

namespace PieSyntax

open Text

/-! ## The comments of a text -/

namespace Text

/-- The comments of a text that begins at byte `a`: each runs from a semicolon to the end of its
line. -/
def commentsFrom (a : Nat) : List Char → List Trivia
  | [] => []
  | c :: rest =>
    if c = ';' then
      let body := rest.takeWhile fun y => y != '\n' && y != '\r'
      let stop := a + byteLength (';' :: body)
      ⟨.comment, ';' :: body, ⟨a, stop⟩⟩ ::
        commentsFrom stop (rest.dropWhile fun y => y != '\n' && y != '\r')
    else commentsFrom (a + c.utf8Size) rest
termination_by text => text.length
decreasing_by
  · exact Nat.lt_succ_of_le (List.dropWhile_sublist _).length_le
  · exact Nat.lt_succ_self _

/-- The comments of a source. -/
def comments (source : List Char) : List Trivia := commentsFrom 0 source

variable {a : Nat} {u body rest : List Char}

/-- No comment begins in a text without a semicolon. -/
theorem commentsFrom_append (hu : ';' ∉ u) (rest : List Char) :
    commentsFrom a (u ++ rest) = commentsFrom (a + byteLength u) rest := by
  induction u generalizing a with
  | nil => rfl
  | cons c u ih =>
    rw [List.mem_cons, not_or] at hu
    rw [List.cons_append, commentsFrom, if_neg (Ne.symm hu.1), ih hu.2, byteLength_cons,
      Nat.add_assoc]

/-- A comment is found where it begins, and the scan goes on behind it. -/
theorem commentsFrom_comment (hbody : ∀ c ∈ body, ¬ EndsLine c)
    (hrest : ∀ c ∈ rest.head?, EndsLine c) :
    commentsFrom a (';' :: body ++ rest) =
      ⟨.comment, ';' :: body, ⟨a, a + byteLength (';' :: body)⟩⟩ ::
        commentsFrom (a + byteLength (';' :: body)) rest := by
  have hall := Cursor.takeWhile_of_not_endsLine hbody
  have hhead : ∀ c ∈ rest.head?, (c != '\n' && c != '\r') = false := by
    intro c hc
    rcases hrest c hc with rfl | rfl <;> rfl
  have htake := takeWhile_append_of_head body hhead
  rw [hall] at htake
  have hdrop : (body ++ rest).dropWhile (fun y => y != '\n' && y != '\r') = rest := by
    have hcut := List.takeWhile_append_dropWhile (p := fun y => y != '\n' && y != '\r')
      (l := body ++ rest)
    rw [htake] at hcut
    exact List.append_cancel_left hcut
  rw [List.cons_append, commentsFrom, if_pos rfl]
  simp only [htake, hdrop]

end Text

/-! ## Items -/

/-- A comment as a token of its own. -/
def Trivia.token (x : Trivia) : Token := ⟨.comment, x.text, x.span, []⟩

/-- A token without the trivia before it. -/
def Token.bare (t : Token) : Token := { t with leading := [] }

theorem Token.withComments_eq (t : Token) : t.withComments =
    (t.leading.filter (·.kind = .comment)).map Trivia.token ++ if t.isEnd then [] else [t.bare] := rfl

/-- `x.IsItem rest`: with the text `rest` behind it, `x` is a comment that ends with its line, or a
token, in which there is no semicolon. -/
inductive Token.IsItem : Token → List Char → Prop
  | comment {body span rest} (hbody : ∀ c ∈ body, ¬ EndsLine c)
      (hrest : ∀ c ∈ rest.head?, EndsLine c) : IsItem ⟨.comment, ';' :: body, span, []⟩ rest
  | token {x rest} (hcomment : x.kind ≠ .comment) (hend : x.kind ≠ .endOfInput)
      (hleading : x.leading = []) (htext : x.text ≠ []) (hsemicolon : ';' ∉ x.text) :
      IsItem x rest

/-- `Listed a text items`: in the text that begins at byte `a` the items stand at their places, and
all else is blank. -/
inductive Listed : Nat → List Char → List Token → Prop
  | last {a gap} (hgap : ∀ c ∈ gap, isBlank c = true) : Listed a gap []
  | item {a gap x rest items} (hgap : ∀ c ∈ gap, isBlank c = true)
      (hspan : x.span = ⟨a + byteLength gap, a + byteLength gap + byteLength x.text⟩)
      (hx : x.IsItem rest) (hrest : Listed x.span.stop rest items) :
      Listed a (gap ++ (x.text ++ rest)) (x :: items)

/-- The stretches before, between and behind the items, from byte `a` to byte `b`. -/
def gapsFrom (a b : Nat) : List Token → List Span
  | [] => [⟨a, b⟩]
  | x :: rest => ⟨a, x.span.start⟩ :: gapsFrom x.span.stop b rest

/-- Every item of a listing has a text. -/
theorem Token.IsItem.text_ne_nil {x : Token} {rest : List Char} (h : x.IsItem rest) :
    x.text ≠ [] := by
  cases h with
  | comment => exact List.cons_ne_nil _ _
  | token _ _ _ htext => exact htext

/-- The end of the input is no item, and items carry no trivia. -/
theorem Token.IsItem.bare {x : Token} {rest : List Char} (h : x.IsItem rest) :
    x.kind ≠ .endOfInput ∧ x.leading = [] := by
  cases h with
  | comment => exact ⟨TokenKind.noConfusion, rfl⟩
  | token _ hend hleading => exact ⟨hend, hleading⟩

namespace Listed

variable {a : Nat} {u text : List Char} {items : List Token} {x : Token}

/-! ## Taking one more piece -/

/-- Blanks in front of a text belong to the gap before its first item. -/
theorem blanks (hu : ∀ c ∈ u, isBlank c = true) (h : Listed (a + byteLength u) text items) :
    Listed a (u ++ text) items := by
  cases h with
  | last hgap => exact .last fun c hc => (List.mem_append.1 hc).elim (hu c) (hgap c)
  | item hgap hspan hx hrest =>
    rw [← List.append_assoc]
    refine .item (fun c hc => (List.mem_append.1 hc).elim (hu c) (hgap c)) ?_ hx hrest
    rw [hspan, byteLength_append, Nat.add_assoc a]

/-- An item in front of a text comes first. -/
theorem cons (hspan : x.span = ⟨a, a + byteLength x.text⟩) (hx : x.IsItem text)
    (h : Listed (a + byteLength x.text) text items) : Listed a (x.text ++ text) (x :: items) := by
  have hstop : x.span.stop = a + byteLength x.text := by rw [hspan]
  rw [← hstop] at h
  exact @item a [] x text items (by simp) hspan hx h

/-- Of the trivia before a text only the comments are listed. -/
theorem trivia {xs : List Trivia} {m : Nat} (hrun : TriviaRun xs text)
    (htiles : Tiles a (xs.map Trivia.piece) m) (h : Listed m text items) :
    Listed a (xs.flatMap Trivia.text ++ text)
      ((xs.filter (·.kind = .comment)).map Trivia.token ++ items) := by
  induction hrun generalizing a with
  | nil =>
    cases htiles
    exact h
  | @cons x xs rest hx hxs ih =>
    obtain ⟨hspan, hne, htiles⟩ := htiles
    have hlisted := ih htiles h
    rw [List.flatMap_cons, List.append_assoc]
    cases hk : x.kind with
    | blank =>
      rw [hk] at hx
      rw [List.filter_cons_of_neg (by simp [hk])]
      exact blanks (blank_of_trivia? hx).1 hlisted
    | comment =>
      rw [hk] at hx
      obtain ⟨⟨body, hbody, hn, hr⟩, hline⟩ := comment_of_trivia? hx
      have hitem : x.token.IsItem (xs.flatMap Trivia.text ++ rest) := by
        rw [Trivia.token, hbody]
        refine .comment ?_ hline
        rintro c hc (rfl | rfl)
        · exact hn hc
        · exact hr hc
      rw [List.filter_cons_of_pos (by simp [hk]), List.map_cons, List.cons_append]
      exact cons hspan hitem hlisted

/-! ## What is listed -/

/-- The items of a listing carry no trivia. -/
theorem bare (h : Listed a text items) :
    ∀ x ∈ items, x.kind ≠ .endOfInput ∧ x.leading = [] := by
  induction h with
  | last => exact fun x hx => absurd hx List.not_mem_nil
  | item _ _ hx _ ih => exact List.forall_mem_cons.2 ⟨hx.bare, ih⟩

/-- Items are not empty and stand one behind the other. -/
theorem ordered (h : Listed a text items) :
    (items.Pairwise fun x y => x.span.stop ≤ y.span.start) ∧
      ∀ x ∈ items, a ≤ x.span.start ∧ x.span.start < x.span.stop := by
  induction h with
  | last => exact ⟨.nil, fun x hx => absurd hx List.not_mem_nil⟩
  | @item a gap x rest items hgap hspan hx hrest ih =>
    have hlt : a ≤ x.span.start ∧ x.span.start < x.span.stop := by
      have hpos := byteLength_pos hx.text_ne_nil
      rw [hspan]
      dsimp only
      omega
    refine ⟨List.pairwise_cons.2 ⟨fun y hy => (ih.2 y hy).1, ih.1⟩, ?_⟩
    intro y hy
    rcases List.mem_cons.1 hy with rfl | hy
    · exact hlt
    · obtain ⟨hle, hne⟩ := ih.2 y hy
      exact ⟨by omega, hne⟩

/-- An item is the text at its place. -/
theorem slice? (h : Listed a text items) (before : List Char) (hbefore : byteLength before = a) :
    ∀ x ∈ items, x.span.slice? (before ++ text) = some x.text := by
  induction h generalizing before with
  | last => exact fun x hx => absurd hx List.not_mem_nil
  | @item a gap x rest items hgap hspan hx hrest ih =>
    have hcut : before ++ (gap ++ (x.text ++ rest)) = before ++ gap ++ x.text ++ rest := by
      simp only [List.append_assoc]
    have hstart : byteLength (before ++ gap) = a + byteLength gap := by
      rw [byteLength_append, hbefore]
    rw [hcut]
    intro y hy
    rcases List.mem_cons.1 hy with rfl | hy
    · rw [hspan, ← hstart]
      exact slice?_append _ _ _
    · refine ih (before ++ gap ++ x.text) ?_ y hy
      rw [byteLength_append, hstart, hspan]

/-- Before, between and behind the items there are blanks only. -/
theorem gaps (h : Listed a text items) (before : List Char) (hbefore : byteLength before = a) :
    ∀ g ∈ gapsFrom a (byteLength (before ++ text)) items, ∃ gap,
      g.slice? (before ++ text) = some gap ∧ ∀ c ∈ gap, isBlank c = true := by
  induction h generalizing before with
  | @last a gap hgap =>
    intro g hg
    refine ⟨gap, ?_, hgap⟩
    have hslice := slice?_append before gap []
    rw [List.append_nil, ← byteLength_append, hbefore] at hslice
    rw [List.mem_singleton.1 hg]
    exact hslice
  | @item a gap x rest items hgap hspan hx hrest ih =>
    have hcut : before ++ (gap ++ (x.text ++ rest)) = before ++ gap ++ x.text ++ rest := by
      simp only [List.append_assoc]
    intro g hg
    rcases List.mem_cons.1 hg with rfl | hg
    · refine ⟨gap, ?_, hgap⟩
      rw [hspan, ← hbefore, ← List.append_assoc]
      exact slice?_append _ _ _
    · rw [hcut] at hg ⊢
      refine ih (before ++ gap ++ x.text) ?_ g hg
      rw [byteLength_append, byteLength_append, hbefore, hspan]

/-- The comments that are listed are those that a scan of the text finds. -/
theorem comments (h : Listed a text items) :
    items.filter (·.kind = .comment) = (commentsFrom a text).map Trivia.token := by
  have hblank : ∀ gap : List Char, (∀ c ∈ gap, isBlank c = true) → ';' ∉ gap := fun gap hgap hc =>
    absurd (hgap _ hc) (by decide)
  induction h with
  | @last a gap hgap =>
    rw [← List.append_nil gap, commentsFrom_append (hblank gap hgap), commentsFrom]
    rfl
  | @item a gap x rest items hgap hspan hx hrest ih =>
    rw [commentsFrom_append (hblank gap hgap)]
    rw [hspan] at ih
    cases hx with
    | @comment body span rest hbody hline =>
      rw [List.filter_cons_of_pos (by simp), ih, commentsFrom_comment hbody hline, List.map_cons,
        Trivia.token]
      exact congrArg (· :: _) (congrArg (Token.mk _ _ · _) hspan)
    | token hcomment hend hleading htext hsemicolon =>
      rw [List.filter_cons_of_neg (by simpa using hcomment), ih, commentsFrom_append hsemicolon]

end Listed

/-! ## The items of a scan -/

namespace Lexer

variable {arrows : Bool} {source : List Char} {s : Schedule} {lx last : Lexer} {mode : LexMode}
  {t : Token} {ts items : List Token}

/-- The lexer takes comments as trivia only. -/
theorem Took.kind_ne_comment (h : Took lx mode t last) : t.kind ≠ .comment := by
  intro hk
  have hadmits := admits_of_lexeme h.lexeme_eq
  rw [hk] at hadmits
  exact hadmits

/-- A semicolon begins a comment, and so it stands in no token. -/
theorem Took.semicolon_not_mem (h : Took lx mode t last) : ';' ∉ t.text := by
  have hnone := Cursor.trivia?_eq_none_iff.1 h.leading_run.trivia?_rest
  have hlexeme := h.lexeme_eq
  cases htext : t.text with
  | nil => exact List.not_mem_nil
  | cons c body =>
    rw [htext] at hnone hlexeme
    intro hmem
    rcases List.mem_cons.1 hmem with rfl | hmem
    · exact (hnone _ rfl).2 rfl
    · rcases lexeme_shape hlexeme with ⟨-, rfl⟩ | ⟨-, hrun⟩
      · exact absurd hmem List.not_mem_nil
      · have hname := (all_of_length_takeWhile hrun).1 _ hmem
        rw [isNameBody_mark (by simp)] at hname
        cases hname

theorem Took.listed (h : Took lx mode t last) (hk : t.kind ≠ .endOfInput)
    (hitems : Listed last.cursor.offset last.cursor.rest items) :
    Listed lx.cursor.offset lx.cursor.rest (t.withComments ++ items) := by
  have hitem : t.bare.IsItem last.cursor.rest :=
    .token h.kind_ne_comment hk rfl (h.text_ne_nil hk) h.semicolon_not_mem
  rw [h.offset_eq, h.span_eq] at hitems
  rw [h.rest_eq, Token.source, List.append_assoc, Token.withComments_eq,
    if_neg (by simpa [Token.isEnd]), List.append_assoc]
  exact (Listed.cons (x := t.bare) h.span_eq hitem hitems).trivia h.leading_run h.leading_tiles

/-- Behind the last token only trivia are left. -/
theorem Took.listed_end (h : Took lx mode t last) (hk : t.kind = .endOfInput) :
    Listed lx.cursor.offset lx.cursor.rest t.withComments := by
  obtain ⟨htext, hrest⟩ := h.end_of_kind hk
  have hrun := h.leading_run
  rw [htext, hrest] at hrun
  rw [h.rest_eq, Token.source, htext, hrest, Token.withComments_eq,
    if_pos (by simpa [Token.isEnd]), List.append_nil]
  exact (Listed.last (by simp)).trivia hrun h.leading_tiles

/-- **The items of a scan.**  If the text behind a scan is listed, so is the text that it passes. -/
theorem Scan.listed (h : Scan s lx ts last)
    (hitems : Listed last.cursor.offset last.cursor.rest items) :
    Listed lx.cursor.offset lx.cursor.rest (ts.flatMap Token.withComments ++ items) := by
  induction h with
  | nil => exact hitems
  | cons ht hk _ ih =>
    rw [List.flatMap_cons, List.append_assoc]
    exact (took_of_next ht).listed hk (ih hitems)

/-- The tokens of a source with its comments list it. -/
theorem listed_of_tokenize (h : tokenize arrows source = .ok ts) :
    Listed 0 source (ts.flatMap Token.withComments) := by
  obtain ⟨us, t, here, rfl, hus, hk, ht⟩ := exists_scan_of_tokensFrom h
  rw [List.flatMap_append, List.flatMap_singleton]
  exact hus.listed ((took_of_next (Prod.ext ht rfl)).listed_end hk)

/-- Lexing gives no comments as tokens. -/
theorem kind_ne_comment_of_tokenize (h : tokenize arrows source = .ok ts) :
    ∀ t ∈ ts, t.kind ≠ .comment := by
  obtain ⟨us, u, here, rfl, hus, hk, -⟩ := exists_scan_of_tokensFrom h
  intro t ht
  rcases List.mem_append.1 ht with ht | ht
  · obtain ⟨_, _, _, -, -, took⟩ := hus.exists_took ht
    exact took.kind_ne_comment
  · rw [List.mem_singleton.1 ht, hk]
    exact TokenKind.noConfusion

end Lexer

/-! ## Comments and tokens apart -/

theorem filter_comment_map_token (xs : List Trivia) :
    (xs.map Trivia.token).filter (·.kind = .comment) = xs.map Trivia.token :=
  List.filter_eq_self.2 (by simp [Trivia.token])

theorem filter_ne_comment_map_token (xs : List Trivia) :
    (xs.map Trivia.token).filter (·.kind ≠ .comment) = [] :=
  List.filter_eq_nil_iff.2 (by simp [Trivia.token])

/-- The comments of a token are those before it. -/
theorem filter_comment_withComments {t : Token} (h : t.kind ≠ .comment) :
    t.withComments.filter (·.kind = .comment) =
      (t.leading.filter (·.kind = .comment)).map Trivia.token := by
  rw [Token.withComments_eq, List.filter_append, filter_comment_map_token]
  by_cases hend : t.kind = .endOfInput
  · simp [Token.isEnd, hend]
  · simp [Token.isEnd, hend, h, Token.bare]

/-- Without its comments, a token is alone. -/
theorem filter_ne_comment_withComments {t : Token} (h : t.kind ≠ .comment) :
    t.withComments.filter (·.kind ≠ .comment) =
      ([t].filter (·.kind ≠ .endOfInput)).map Token.bare := by
  rw [Token.withComments_eq, List.filter_append, filter_ne_comment_map_token, List.nil_append]
  by_cases hend : t.kind = .endOfInput
  · simp [Token.isEnd, hend]
  · simp [Token.isEnd, hend, h, Token.bare]

variable {ts : List Token}

/-- The comments that are listed are those in the trivia of the tokens. -/
theorem filter_comment_flatMap (h : ∀ t ∈ ts, t.kind ≠ .comment) :
    (ts.flatMap Token.withComments).filter (·.kind = .comment) =
      ((ts.flatMap Token.leading).filter (·.kind = .comment)).map Trivia.token := by
  rw [List.filter_flatMap, List.filter_flatMap, List.map_flatMap]
  exact List.flatMap_congr fun t ht => filter_comment_withComments (h t ht)

/-- The others are the tokens but the end of the input. -/
theorem filter_ne_comment_flatMap (h : ∀ t ∈ ts, t.kind ≠ .comment) :
    (ts.flatMap Token.withComments).filter (·.kind ≠ .comment) =
      (ts.filter (·.kind ≠ .endOfInput)).map Token.bare := by
  induction ts with
  | nil => rfl
  | cons t ts ih =>
    obtain ⟨ht, hts⟩ := List.forall_mem_cons.1 h
    rw [List.flatMap_cons, List.filter_append, ih hts, filter_ne_comment_withComments ht,
      ← List.map_append, ← List.filter_append, List.singleton_append]

/-- The comments of a tree are those in the trivia of the tokens of its source. -/
theorem SyntaxTree.comments_eq {settings : Settings} {source : List Char} {tree : SyntaxTree}
    (h : parse settings source = .ok tree) (hts : tokenize settings.arrows source = .ok ts) :
    tree.comments = (ts.flatMap Token.leading).filter (·.kind = .comment) := by
  rw [tokenize_of_parse h] at hts
  rw [← Except.ok.inj hts, SyntaxTree.comments, List.flatMap_append, List.flatMap_singleton]
  rfl

/-! ## Whole listings -/

/-- `items` list the tokens `ts` of `source` and its comments. -/
structure IsListing (arrows : Bool) (source : List Char) (ts items : List Token) : Prop where
  /-- Items stand one behind the other. -/
  ordered : items.Pairwise fun x y => x.span.stop ≤ y.span.start
  nonempty : ∀ x ∈ items, x.span.start < x.span.stop
  slice : ∀ x ∈ items, x.span.slice? source = some x.text
  /-- The end of the input is not listed, and items carry no trivia. -/
  bare : ∀ x ∈ items, x.kind ≠ .endOfInput ∧ x.leading = []
  /-- Before, between and behind the items there are blanks only. -/
  gaps : ∀ g ∈ gapsFrom 0 (byteLength source) items, ∃ gap, g.slice? source = some gap ∧
    ∀ c ∈ gap, isBlank c = true
  tokens : items.filter (·.kind ≠ .comment) = (ts.filter (·.kind ≠ .endOfInput)).map Token.bare
  comments : items.filter (·.kind = .comment) = (Text.comments source).map Trivia.token
  /-- The comments are those of the tree, if there is one. -/
  treeComments : ∀ settings tree, settings.arrows = arrows → parse settings source = .ok tree →
    items.filter (·.kind = .comment) = tree.comments.map Trivia.token

/-- The tokens of a source and their comments are its listing. -/
theorem isListing_of_tokenize {arrows : Bool} {source : List Char}
    (h : tokenize arrows source = .ok ts) :
    IsListing arrows source ts (ts.flatMap Token.withComments) := by
  have hlisted := Lexer.listed_of_tokenize h
  have hkinds := Lexer.kind_ne_comment_of_tokenize h
  exact {
    ordered := hlisted.ordered.1
    nonempty := fun x hx => (hlisted.ordered.2 x hx).2
    slice := hlisted.slice? [] rfl
    bare := hlisted.bare
    gaps := hlisted.gaps [] rfl
    tokens := filter_ne_comment_flatMap hkinds
    comments := hlisted.comments
    treeComments := by
      rintro settings tree rfl hparse
      rw [SyntaxTree.comments_eq hparse h, filter_comment_flatMap hkinds] }

/-- **Listings.**  A source can be listed exactly if it can be lexed, with the same error if it cannot.
The listing holds its tokens and its comments and nothing else, in order and at their places. -/
theorem listing_is_complete (arrows : Bool) (source : List Char) :
    match tokenize arrows source with
    | .error e => tokenizeWithComments arrows source = .error e
    | .ok ts => ∃ items, tokenizeWithComments arrows source = .ok items ∧
        IsListing arrows source ts items := by
  rw [tokenizeWithComments]
  cases h : tokenize arrows source with
  | error e => rfl
  | ok ts => exact ⟨_, rfl, isListing_of_tokenize h⟩

/-- A comment stands before the token behind it, and one after the last token is listed too. -/
example : (tokenizeWithComments false "(a ; x\n); y".toList).toOption.map (·.map Token.text) =
    some [['('], ['a'], "; x".toList, [')'], "; y".toList] := by
  decide +kernel

end PieSyntax
