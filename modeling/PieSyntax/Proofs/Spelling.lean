/-
# How nodes are spelled

A node is read from a stretch of tokens.  `Spelled n ts` says from which: a leaf from one token, and a
form from its parentheses and from what its production puts between them, in which the tokens of its
children stand in order.  Main statements: the parentheses of a spelled form match
(`Spelled.balanced`), everything below a spelled node is spelled by a part of the same tokens
(`Spelled.of_mem_descendants`), and the children of a form lie one behind the other between its
parentheses (`Spelled.ordered`, `Spelled.inside`).
-/
import PieSyntax.Proofs.Pieces

namespace PieSyntax

open Text

/-! ## Spellings -/

/-- A child with its label, and the tokens that it is read from. -/
structure Part where
  label : Option Field
  node : Node
  tokens : List Token

namespace Part

/-- The child as it stands in its parent. -/
def child (x : Part) : Option Field × Node := (x.label, x.node)

/-- The part that is read from the name `t` and fills `field`. -/
def name (field : Field) (t : Token) : Part :=
  ⟨some field, .leaf .identifier t.span t.text, [t]⟩

end Part

/-- What stands between the parentheses of a form: `Layout kind parts ts` says that the children
`parts` of a form of this kind stand among the tokens `ts`. -/
inductive Layout : FormKind → List Part → List Token → Prop
  | binding {kind word kw t value} (hk : Binds kind word) (hw : kw.kind = .keyword word)
      (ht : t.kind = .identifier) (hv : value.label = some (Parser.valueField kind)) :
      Layout kind [.name .identifier t, value] (kw :: t :: value.tokens)
  | lambda {kw opening names closing body} (hw : kw.kind = .keyword .lambda)
      (ho : opening.kind = .leftParen) (hn : ∀ t ∈ names, t.kind = .identifier)
      (hc : closing.kind = .rightParen) (hb : body.label = some .body) :
      Layout .lambda (names.map (.name .arguments) ++ [body])
        (kw :: opening :: (names ++ closing :: body.tokens))
  | functionType {kw domain codomains} (hw : kw.kind = .keyword .arrow)
      (hd : domain.label = some .domain) (hne : codomains ≠ [])
      (hc : ∀ x ∈ codomains, x.label = some .codomain) :
      Layout .functionType (domain :: codomains)
        (kw :: (domain.tokens ++ codomains.flatMap Part.tokens))
  | application {function arguments} (hf : function.label = some .function)
      (ha : ∀ x ∈ arguments, x.label = some .arguments) :
      Layout .application (function :: arguments)
        (function.tokens ++ arguments.flatMap Part.tokens)

/-- `Spelled n ts`: the node `n` is read from the tokens `ts`. -/
inductive Spelled : Node → List Token → Prop
  | leaf {t kind} (ht : Parser.leafKind? t.kind = some kind) :
      Spelled (.leaf kind t.span t.text) [t]
  | form {kind opening closing parts inside} (ho : opening.kind = .leftParen)
      (hc : closing.kind = .rightParen) (hl : Layout kind parts inside)
      (hp : ∀ x ∈ parts, Spelled x.node x.tokens)
      (hx : ∀ x ∈ parts, x.node.kind.isExpression = true) :
      Spelled (.form kind ⟨opening.span.start, closing.span.stop⟩ (parts.map Part.child))
        (opening :: (inside ++ [closing]))

theorem spelled_name {t : Token} (ht : t.kind = .identifier) :
    Spelled (.leaf .identifier t.span t.text) [t] :=
  .leaf (by rw [ht]; rfl)

/-! ## Matching parentheses -/

/-- The parentheses among the tokens match each other. -/
inductive Balanced : List Token → Prop
  | nil : Balanced []
  | word {t ts} (ho : t.kind ≠ .leftParen) (hc : t.kind ≠ .rightParen) (hts : Balanced ts) :
      Balanced (t :: ts)
  | parens {opening inside closing ts} (ho : opening.kind = .leftParen)
      (hc : closing.kind = .rightParen) (hi : Balanced inside) (hts : Balanced ts) :
      Balanced (opening :: (inside ++ closing :: ts))

namespace Balanced

theorem append {ts us : List Token} (ht : Balanced ts) (hu : Balanced us) :
    Balanced (ts ++ us) := by
  induction ht with
  | nil => exact hu
  | word ho hc _ ih => exact .word ho hc ih
  | parens ho hc hi _ _ ih =>
    rw [List.cons_append, List.append_assoc, List.cons_append]
    exact .parens ho hc hi ih

theorem flatMap {xs : List Part} (h : ∀ x ∈ xs, Balanced x.tokens) :
    Balanced (xs.flatMap Part.tokens) := by
  induction xs with
  | nil => exact .nil
  | cons x xs ih =>
    rw [List.flatMap_cons]
    have hx := h x List.mem_cons_self
    exact hx.append (ih fun y hy => h y (List.mem_cons_of_mem x hy))

/-- Tokens that are no parentheses need no partner. -/
theorem words {ts : List Token} {kind : TokenKind} (h : ∀ t ∈ ts, t.kind = kind)
    (ho : kind ≠ .leftParen) (hc : kind ≠ .rightParen) : Balanced ts := by
  induction ts with
  | nil => exact .nil
  | cons t ts ih =>
    have ht := h t List.mem_cons_self
    refine .word (by rw [ht]; exact ho) (by rw [ht]; exact hc) (ih ?_)
    exact fun u hu => h u (List.mem_cons_of_mem t hu)

/-- No beginning of balanced tokens closes more parentheses than it opens. -/
theorem count_le {ts us vs : List Token} (h : Balanced ts) (hcut : ts = us ++ vs) :
    (us.map Token.kind).count .rightParen ≤ (us.map Token.kind).count .leftParen := by
  induction h generalizing us vs with
  | nil =>
    obtain ⟨rfl, -⟩ := List.append_eq_nil_iff.1 hcut.symm
    exact Nat.le_refl _
  | @word t ts ho hc _ ih =>
    rcases List.cons_eq_append_iff.1 hcut with ⟨rfl, -⟩ | ⟨us, rfl, hts⟩
    · exact Nat.le_refl _
    · rw [List.map_cons, List.count_cons_of_ne hc, List.count_cons_of_ne ho]
      exact ih hts
  | @parens opening inside closing ts ho hc _ _ ihi ih =>
    rcases List.cons_eq_append_iff.1 hcut with ⟨rfl, -⟩ | ⟨us, rfl, hrest⟩
    · exact Nat.le_refl _
    · -- The beginning ends inside the parentheses or behind them.
      rcases List.append_eq_append_iff.1 hrest with ⟨ws, rfl, hws⟩ | ⟨ws, rfl, hws⟩
      · have hinside := ihi (List.append_nil inside).symm
        rcases List.cons_eq_append_iff.1 hws with ⟨rfl, -⟩ | ⟨ws, rfl, hts⟩
        · simp [ho]
          omega
        · have hbehind := ih hts
          simp [ho, hc]
          omega
      · have hinside := ihi rfl
        simp [ho]
        omega

end Balanced

/-- What stands between the parentheses of a form is balanced if its children are. -/
theorem Layout.balanced {kind : FormKind} {parts : List Part} {inside : List Token}
    (h : Layout kind parts inside) (hp : ∀ x ∈ parts, Balanced x.tokens) : Balanced inside := by
  cases h with
  | binding hk hw ht hv =>
    have hvalue := hp _ (List.mem_cons_of_mem _ List.mem_cons_self)
    refine .word (by simp [hw]) (by simp [hw]) ?_
    exact .word (by simp [ht]) (by simp [ht]) hvalue
  | lambda hw ho hn hc hb =>
    have hbody := hp _ (List.mem_append_right _ List.mem_cons_self)
    have hnames := Balanced.words hn (by simp) (by simp)
    exact .word (by simp [hw]) (by simp [hw]) (.parens ho hc hnames hbody)
  | functionType hw hd hne hc =>
    refine .word (by simp [hw]) (by simp [hw]) ?_
    rw [← List.flatMap_cons]
    exact .flatMap hp
  | application hf ha =>
    rw [← List.flatMap_cons]
    exact .flatMap hp

/-- **Matching parentheses.**  The tokens of a node are balanced. -/
theorem Spelled.balanced {n : Node} {ts : List Token} (h : Spelled n ts) : Balanced ts := by
  induction h with
  | @leaf t kind ht =>
    refine .word ?_ ?_ .nil
    · intro hk
      rw [hk] at ht
      cases ht
    · intro hk
      rw [hk] at ht
      cases ht
  | form ho hc hl hp hx ih => exact .parens ho hc (hl.balanced ih) .nil

/-! ## What is below a node -/

/-- The tokens of the children stand in order between the parentheses. -/
theorem Layout.sublist {kind : FormKind} {parts : List Part} {inside : List Token}
    (h : Layout kind parts inside) : List.Sublist (parts.flatMap Part.tokens) inside := by
  cases h with
  | @binding kind word kw t value hk hw ht hv =>
    rw [List.flatMap_cons, List.flatMap_singleton]
    exact List.sublist_cons_self kw (t :: value.tokens)
  | @lambda kw opening names closing body hw ho hn hc hb =>
    have hnames : (names.map (Part.name .arguments)).flatMap Part.tokens = names := by
      rw [List.flatMap_map]
      exact List.flatMap_singleton' names
    rw [List.flatMap_append, List.flatMap_singleton, hnames]
    refine .cons _ (.cons _ ?_)
    exact (List.Sublist.refl names).append (List.sublist_cons_self closing body.tokens)
  | functionType hw hd hne hc =>
    rw [List.flatMap_cons]
    exact List.sublist_cons_self _ _
  | application hf ha => rw [List.flatMap_cons]

theorem tokens_infix_flatMap {x : Part} {xs : List Part} (hx : x ∈ xs) :
    x.tokens <:+: xs.flatMap Part.tokens := by
  obtain ⟨before, after, rfl⟩ := List.append_of_mem hx
  refine ⟨before.flatMap Part.tokens, after.flatMap Part.tokens, ?_⟩
  rw [List.flatMap_append, List.flatMap_cons, List.append_assoc]

/-- The tokens of each child stand together. -/
theorem Layout.tokens_infix {kind : FormKind} {parts : List Part} {inside : List Token}
    (h : Layout kind parts inside) {x : Part} (hx : x ∈ parts) : x.tokens <:+: inside := by
  cases h with
  | @binding kind word kw t value hk hw ht hv =>
    rcases List.mem_cons.1 hx with rfl | hx
    · exact ⟨[kw], value.tokens, rfl⟩
    · rw [List.mem_singleton.1 hx]
      exact ⟨[kw, t], [], List.append_nil _⟩
  | @lambda kw opening names closing body hw ho hn hc hb =>
    rcases List.mem_append.1 hx with hx | hx
    · obtain ⟨t, ht, rfl⟩ := List.mem_map.1 hx
      obtain ⟨before, after, rfl⟩ := List.append_of_mem ht
      refine ⟨kw :: opening :: before, after ++ closing :: body.tokens, ?_⟩
      simp [Part.name]
    · rw [List.mem_singleton.1 hx]
      refine ⟨kw :: opening :: (names ++ [closing]), [], ?_⟩
      simp
  | functionType hw hd hne hc =>
    rw [← List.flatMap_cons]
    exact List.infix_cons (tokens_infix_flatMap hx)
  | application hf ha =>
    rw [← List.flatMap_cons]
    exact tokens_infix_flatMap hx

/-- Everything below a spelled node is spelled by some of the same tokens, which stand together. -/
theorem Spelled.of_mem_descendants {n m : Node} {ts : List Token} (h : Spelled n ts)
    (hm : m ∈ n.descendants) : ∃ us, us <:+: ts ∧ Spelled m us := by
  induction h with
  | leaf ht =>
    rcases Node.mem_descendants_iff.1 hm with rfl | ⟨c, hc, -⟩
    · exact ⟨_, List.infix_refl _, .leaf ht⟩
    · cases hc
  | @form kind opening closing parts inside ho hc hl hp hx ih =>
    rcases Node.mem_descendants_iff.1 hm with rfl | ⟨c, hchild, hm⟩
    · exact ⟨_, List.infix_refl _, .form ho hc hl hp hx⟩
    · obtain ⟨⟨label, node⟩, hlabelled, rfl⟩ := List.mem_map.1 hchild
      obtain ⟨x, hmem, heq⟩ := List.mem_map.1 hlabelled
      cases heq
      obtain ⟨us, hus, hspelled⟩ := ih x hmem hm
      refine ⟨us, hus.trans ((hl.tokens_infix hmem).trans ?_), hspelled⟩
      exact ⟨[opening], [closing], rfl⟩

/-! ## Where the children stand -/

/-- The tokens stand one behind the other, and none is empty. -/
structure InOrder (ts : List Token) : Prop where
  pairwise : ts.Pairwise fun t u => t.span.stop ≤ u.span.start
  start_lt : ∀ t ∈ ts, t.span.start < t.span.stop

theorem InOrder.sublist {ts us : List Token} (h : InOrder ts) (hs : List.Sublist us ts) :
    InOrder us where
  pairwise := h.pairwise.sublist hs
  start_lt := fun t ht => h.start_lt t (hs.subset ht)

/-- No token reaches behind the last one. -/
theorem InOrder.le_last {ts : List Token} {t : Token} (h : InOrder (ts ++ [t])) :
    ∀ u ∈ ts, u.span.start ≤ t.span.start ∧ u.span.stop ≤ t.span.stop := by
  intro u hu
  have hlt := h.start_lt u (List.mem_append_left _ hu)
  have hlast := h.start_lt t (by simp)
  have hle := (List.pairwise_append.1 h.pairwise).2.2 u hu t (List.mem_singleton.2 rfl)
  omega

/-- The tokens of a scan stand in order. -/
theorem Lexer.Scan.inOrder {s : Schedule} {lx last : Lexer} {ts : List Token}
    (h : Scan s lx ts last) : InOrder ts := by
  obtain ⟨hpair, hmem⟩ := h.tiles.pairwise
  have hsub : List.Sublist (ts.map Token.piece) (ts.flatMap Token.pieces) := by
    clear h hpair hmem
    induction ts with
    | nil => exact .slnil
    | cons t ts ih =>
      rw [List.map_cons, List.flatMap_cons, Token.pieces, List.append_assoc]
      exact List.Sublist.append_left (.cons_cons _ ih) (t.leading.map Trivia.piece) |>
        List.Sublist.trans (List.sublist_append_right _ _)
  constructor
  · exact List.pairwise_map.1 (hpair.sublist hsub)
  · intro t ht
    exact (hmem t.piece (hsub.subset (List.mem_map_of_mem ht))).2.1

/-- A node stands from its first token to its last. -/
theorem Spelled.exists_first_last {n : Node} {ts : List Token} (h : Spelled n ts) :
    ∃ t rest u, ts = t :: rest ∧ ts.getLast? = some u ∧ n.span = ⟨t.span.start, u.span.stop⟩ := by
  cases h with
  | @leaf t kind ht => exact ⟨t, [], t, rfl, rfl, rfl⟩
  | @form kind opening closing parts inside ho hc hl hp hx =>
    refine ⟨opening, inside ++ [closing], closing, rfl, ?_, rfl⟩
    rw [← List.cons_append, List.getLast?_concat]

/-- A node begins with one of its tokens and ends with another. -/
theorem Spelled.exists_ends {n : Node} {ts : List Token} (h : Spelled n ts) :
    ∃ t u, t ∈ ts ∧ u ∈ ts ∧ n.span = ⟨t.span.start, u.span.stop⟩ := by
  obtain ⟨t, rest, u, rfl, hu, hspan⟩ := h.exists_first_last
  exact ⟨t, u, List.mem_cons_self, List.mem_of_getLast? hu, hspan⟩

/-- Nodes that are read from tokens in order stand in the same order. -/
theorem pairwise_of_spelled {parts : List Part} (hp : ∀ x ∈ parts, Spelled x.node x.tokens)
    (h : InOrder (parts.flatMap Part.tokens)) :
    (parts.map (·.node)).Pairwise fun m n => m.span.stop ≤ n.span.start := by
  have hpair := (List.pairwise_flatMap.1 h.pairwise).2
  refine List.pairwise_map.2 (hpair.imp_of_mem ?_)
  intro x y hx hy hxy
  obtain ⟨_, u, _, hu, hxspan⟩ := (hp x hx).exists_ends
  obtain ⟨t, _, ht, _, hyspan⟩ := (hp y hy).exists_ends
  rw [hxspan, hyspan]
  exact hxy u hu t ht

theorem children_form (kind : FormKind) (span : Span) (parts : List Part) :
    (Node.form kind span (parts.map Part.child)).children = parts.map (·.node) := by
  show (parts.map Part.child).map (·.2) = _
  rw [List.map_map]
  rfl

/-- **Siblings.**  The children of a node stand one behind the other. -/
theorem Spelled.ordered {n : Node} {ts : List Token} (h : Spelled n ts) (hts : InOrder ts) :
    n.children.Pairwise fun m c => m.span.stop ≤ c.span.start := by
  cases h with
  | leaf ht => exact .nil
  | @form kind opening closing parts inside ho hc hl hp hx =>
    rw [children_form]
    refine pairwise_of_spelled hp (hts.sublist (hl.sublist.trans ?_))
    exact (List.sublist_append_left inside [closing]).cons opening

/-- **Children.**  The children of a node stand between its parentheses. -/
theorem Spelled.inside {n : Node} {ts : List Token} (h : Spelled n ts) (hts : InOrder ts) :
    ∀ c ∈ n.children, n.span.start < c.span.start ∧ c.span.stop < n.span.stop := by
  cases h with
  | leaf ht =>
    intro c hc
    cases hc
  | @form kind opening closing parts inside ho hc hl hp hx =>
    -- All tokens of a child stand behind the opening parenthesis and before the closing one.
    rw [children_form]
    intro c hchild
    obtain ⟨x, hmem, rfl⟩ := List.mem_map.1 hchild
    obtain ⟨t, u, ht, hu, hspan⟩ := (hp x hmem).exists_ends
    have hsub := (hl.tokens_infix hmem).subset
    obtain ⟨hopening, hrest⟩ := List.pairwise_cons.1 hts.pairwise
    have hclosing := (List.pairwise_append.1 hrest).2.2 u (hsub hu) closing List.mem_cons_self
    have hfirst := hopening t (List.mem_append_left _ (hsub ht))
    have hopens := hts.start_lt opening List.mem_cons_self
    have hcloses := hts.start_lt closing (by simp)
    rw [hspan]
    constructor
    · show opening.span.start < t.span.start
      omega
    · show u.span.stop < closing.span.stop
      omega

end PieSyntax
