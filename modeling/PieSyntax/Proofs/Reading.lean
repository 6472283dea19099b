/-
# The tree is the token stream

While a parse goes on, every token read so far belongs to a complete node or to a form that is still
open.  `Parser.Accounts` says to which, from the outermost form to the focus, and every step keeps it
(`Parser.accounts_of_step`).  Main statement: the tokens of a tree spell its nodes
(`parse_spells_tokens`).
-/
import PieSyntax.Proofs.Agreement
import PieSyntax.Proofs.Spelling

namespace PieSyntax

open Text

/-! ## Open forms -/

/-- The places at which a form can be open. -/
inductive Place where
  | slot (s : Slot)
  | name
  | parameters
  | close

/-- The beginning of a form: `Begun kind place parts ts` says that a form of this kind, when it is
open at `place`, holds the children `parts`, and that `ts` are the tokens read after its
parenthesis. -/
inductive Begun : FormKind → Place → List Part → List Token → Prop
  | name {kind word kw} (hk : Binds kind word) (hw : kw.kind = .keyword word) :
      Begun kind .name [] [kw]
  | value {kind word kw t field} (hk : Binds kind word) (hw : kw.kind = .keyword word)
      (ht : t.kind = .identifier) (hf : Parser.valueField kind = field) :
      Begun kind (.slot (.required field)) [.name .identifier t] [kw, t]
  | parameters {kw} (hw : kw.kind = .keyword .lambda) : Begun .lambda .parameters [] [kw]
  | argument {kw opening names span} (hw : kw.kind = .keyword .lambda)
      (ho : opening.kind = .leftParen) (hn : ∀ t ∈ names, t.kind = .identifier) :
      Begun .lambda (.slot (.argument span)) (names.map (.name .arguments))
        (kw :: opening :: names)
  | body {kw opening names closing} (hw : kw.kind = .keyword .lambda)
      (ho : opening.kind = .leftParen) (hn : ∀ t ∈ names, t.kind = .identifier)
      (hc : closing.kind = .rightParen) :
      Begun .lambda (.slot (.required .body)) (names.map (.name .arguments))
        (kw :: opening :: (names ++ [closing]))
  | domain {kw} (hw : kw.kind = .keyword .arrow) :
      Begun .functionType (.slot (.required .domain)) [] [kw]
  | codomain {kw domain} (hw : kw.kind = .keyword .arrow) (hd : domain.label = some .domain) :
      Begun .functionType (.slot (.required .codomain)) [domain] (kw :: domain.tokens)
  | function : Begun .application (.slot .function) [] []
  | codomains {parts ts} (hl : Layout .functionType parts ts) :
      Begun .functionType (.slot (.more .codomain)) parts ts
  | arguments {parts ts} (hl : Layout .application parts ts) :
      Begun .application (.slot (.more .arguments)) parts ts
  | close {kind parts ts} (hl : Layout kind parts ts) : Begun kind .close parts ts

/-- Whether a closing parenthesis may stand there and ends the form. -/
def Place.IsLast : Place → Prop
  | slot (.more _) | close => True
  | _ => False

namespace Begun

variable {kind : FormKind} {place : Place} {field : Field} {parts : List Part} {ts : List Token}
  {x : Part}

/-- A form that may be closed holds all that its production asks for. -/
theorem layout (h : Begun kind place parts ts) (hp : place.IsLast) : Layout kind parts ts := by
  cases h with
  | codomains hl | arguments hl | close hl => exact hl
  | _ => exact hp.elim

theorem add_name {t : Token} (h : Begun kind .name parts ts) (ht : t.kind = .identifier) :
    Begun kind (.slot (.required (Parser.valueField kind))) (parts ++ [.name .identifier t])
      (ts ++ [t]) := by
  cases h with
  | name hk hw => exact .value hk hw ht rfl

theorem open_arguments {t : Token} {span : Span} (h : Begun kind .parameters parts ts)
    (ht : t.kind = .leftParen) : Begun kind (.slot (.argument span)) parts (ts ++ [t]) := by
  cases h with
  | parameters hw => exact .argument hw ht fun u hu => absurd hu List.not_mem_nil

theorem close_arguments {t : Token} {span : Span} (h : Begun kind (.slot (.argument span)) parts ts)
    (ht : t.kind = .rightParen) :
    Begun kind (.slot (.required .body)) parts (ts ++ [t]) := by
  cases h with
  | argument hw ho hn => exact .body hw ho hn ht

theorem add_domain (h : Begun kind (.slot (.required .domain)) parts ts)
    (hx : x.label = some .domain) :
    Begun kind (.slot (.required .codomain)) (parts ++ [x]) (ts ++ x.tokens) := by
  cases h with
  | value hk hw ht hf => cases hk <;> cases hf
  | domain hw => exact .codomain hw hx

theorem add_codomain (h : Begun kind (.slot (.required .codomain)) parts ts)
    (hx : x.label = some .codomain) :
    Begun kind (.slot (.more .codomain)) (parts ++ [x]) (ts ++ x.tokens) := by
  cases h with
  | value hk hw ht hf => cases hk <;> cases hf
  | @codomain kw domain hw hd =>
    have hl := Layout.functionType hw hd (List.cons_ne_nil x [])
      (by simpa using hx)
    rw [List.flatMap_singleton] at hl
    exact .codomains hl

theorem add_value (h : Begun kind (.slot (.required field)) parts ts) (hd : field ≠ .domain)
    (hc : field ≠ .codomain) (hx : x.label = some field) :
    Begun kind .close (parts ++ [x]) (ts ++ x.tokens) := by
  cases h with
  | value hk hw ht hf =>
    rw [← hf] at hx
    exact .close (.binding hk hw ht hx)
  | @body kw opening names closing hw ho hn hcl =>
    have hl := Layout.lambda hw ho hn hcl hx
    rw [List.cons_append, List.cons_append, List.append_assoc]
    exact .close hl
  | domain hw => exact absurd rfl hd
  | codomain hw hdom => exact absurd rfl hc

theorem add_function (h : Begun kind (.slot .function) parts ts) (hx : x.label = some .function) :
    Begun kind (.slot (.more .arguments)) (parts ++ [x]) (ts ++ x.tokens) := by
  cases h with
  | function =>
    have hl : Layout .application [x] _ := .application hx (by simp)
    rw [List.flatMap_nil, List.append_nil] at hl
    exact .arguments hl

theorem add_more (h : Begun kind (.slot (.more field)) parts ts) (hx : x.label = some field) :
    Begun kind (.slot (.more field)) (parts ++ [x]) (ts ++ x.tokens) := by
  cases h with
  | codomains hl =>
    cases hl with
    | binding hk => cases hk
    | @functionType kw domain codomains hw hd hne hc =>
      have hall := List.forall_mem_append.2 ⟨hc, List.forall_mem_singleton.2 hx⟩
      have hl := Layout.functionType hw hd (by simp) hall
      rw [List.flatMap_append, List.flatMap_singleton, ← List.append_assoc] at hl
      exact .codomains hl
  | arguments hl =>
    cases hl with
    | binding hk => cases hk
    | @application function arguments hf ha =>
      have hall := List.forall_mem_append.2 ⟨ha, List.forall_mem_singleton.2 hx⟩
      have hl := Layout.application hf hall
      rw [List.flatMap_append, List.flatMap_singleton, ← List.append_assoc] at hl
      exact .arguments hl

theorem add_argument {span : Span} {t : Token} (h : Begun kind (.slot (.argument span)) parts ts)
    (ht : t.kind = .identifier) :
    Begun kind (.slot (.argument span)) (parts ++ [.name .arguments t]) (ts ++ [t]) := by
  cases h with
  | @argument kw opening names span hw ho hn =>
    have hall := List.forall_mem_append.2 ⟨hn, List.forall_mem_singleton.2 ht⟩
    have hb : Begun .lambda (.slot (.argument span)) _ _ := .argument hw ho hall
    rw [List.map_append] at hb
    exact hb

end Begun

/-! ## What an open form has read -/

/-- `f.Read place ts`: the open form `f` has come to `place`, and `ts` are the tokens read from its
parenthesis on. -/
inductive OpenForm.Read : OpenForm → Place → List Token → Prop
  | intro {opening kind place parts inside} (ho : opening.kind = .leftParen)
      (hp : ∀ x ∈ parts, Spelled x.node x.tokens)
      (hx : ∀ x ∈ parts, x.node.kind.isExpression = true) (hb : Begun kind place parts inside) :
      Read ⟨opening.span, ⟨kind, (parts.map Part.child).toArray⟩⟩ place (opening :: inside)

namespace OpenForm

variable {f : OpenForm} {here next : Place} {ts us : List Token}

/-- The form at its first word. -/
theorem read_opening {kind : FormKind} {opening : Token} (ho : opening.kind = .leftParen)
    (hb : Begun kind next [] ts) : Read ⟨opening.span, .empty kind⟩ next (opening :: ts) := by
  have nothing : ∀ {P : Part → Prop}, ∀ x ∈ ([] : List Part), P x :=
    fun x hx => absurd hx List.not_mem_nil
  exact .intro ho nothing nothing hb

/-- A token is read that adds no child. -/
theorem Read.word (h : f.Read here ts) (t : Token)
    (hb : ∀ {parts inside}, Begun f.node.kind here parts inside →
      Begun f.node.kind next parts (inside ++ [t])) : f.Read next (ts ++ [t]) := by
  cases h with
  | intro ho hp hx hbegun => exact .intro ho hp hx (hb hbegun)

/-- A child is read. -/
theorem Read.child (h : f.Read here ts) {field : Field} {n : Node} (hn : Spelled n us)
    (hk : n.kind.isExpression = true)
    (hb : ∀ {parts inside}, Begun f.node.kind here parts inside →
      Begun f.node.kind next (parts ++ [⟨some field, n, us⟩]) (inside ++ us)) :
    (f.push field n).Read next (ts ++ us) := by
  cases h with
  | @intro opening kind place parts inside ho hp hx hbegun =>
    -- The array of children grows at its end, as the list of parts does.
    have hchildren : (parts.map Part.child).toArray.push (some field, n) =
        ((parts ++ [(⟨some field, n, us⟩ : Part)]).map Part.child).toArray := by
      rw [List.map_append, List.push_toArray]
      rfl
    show Read ⟨opening.span, ⟨kind, (parts.map Part.child).toArray.push (some field, n)⟩⟩ next _
    rw [hchildren]
    refine .intro ho ?_ ?_ (hb hbegun)
    · exact List.forall_mem_append.2 ⟨hp, List.forall_mem_singleton.2 hn⟩
    · exact List.forall_mem_append.2 ⟨hx, List.forall_mem_singleton.2 hk⟩

/-- The form is closed. -/
theorem Read.spelled {t : Token} (h : f.Read here ts) (hlast : here.IsLast)
    (ht : t.kind = .rightParen)
    (hspan : ∀ u ∈ ts, u.span.start ≤ t.span.start ∧ u.span.stop ≤ t.span.stop) :
    Spelled (f.close t.span) (ts ++ [t]) := by
  cases h with
  | @intro opening kind place parts inside ho hp hx hb =>
    obtain ⟨hstart, hstop⟩ := hspan opening List.mem_cons_self
    have hjoin : opening.span.join t.span = ⟨opening.span.start, t.span.stop⟩ := by
      rw [Span.join, Nat.min_eq_left hstart, Nat.max_eq_right hstop]
    have hclosed := Spelled.form ho ht (hb.layout hlast) hp hx
    rw [← hjoin] at hclosed
    exact hclosed

end OpenForm

/-! ## What a parser has read -/

/-- Whether `f` may be open inside of `outer`: claims and definitions stand at top level. -/
def OpenForm.Fits (f : OpenForm) (outer : List (OpenForm × Slot)) : Prop :=
  (NodeKind.form f.node.kind).isExpression = true ∨ outer = []

/-- `Enclosing root forms ts`: the tokens `ts` have been read in the forms completed at top level
and in the open `forms`. -/
inductive Enclosing : NodeBuilder → List (OpenForm × Slot) → List Token → Prop
  | root {parts : List Part} (hl : ∀ x ∈ parts, x.label = none)
      (hp : ∀ x ∈ parts, Spelled x.node x.tokens) :
      Enclosing ⟨.source, (parts.map Part.child).toArray⟩ [] (parts.flatMap Part.tokens)
  | form {root f slot outer ts us} (h : Enclosing root outer ts) (hf : f.Read (.slot slot) us)
      (hfit : f.Fits outer) : Enclosing root ((f, slot) :: outer) (ts ++ us)

/-- `f.Read outer ts`: the tokens `ts` have been read in the focus `f`, which stands in `outer`. -/
inductive Focus.Read : Focus → List (OpenForm × Slot) → List Token → Prop
  | expression {outer} : Read .expression outer []
  | head {opening outer} (ho : opening.kind = .leftParen) :
      Read (.head opening.span) outer [opening]
  | name {f outer ts} (hf : f.Read .name ts) (hfit : f.Fits outer) : Read (.name f) outer ts
  | parameters {f outer ts} (hf : f.Read .parameters ts) (hfit : f.Fits outer) :
      Read (.parameters f) outer ts
  | close {f outer ts} (hf : f.Read .close ts) (hfit : f.Fits outer) : Read (.close f) outer ts

namespace Parser

/-- Every token that the parser has read belongs to a complete node, to an open form or to the
focus. -/
def Accounts (p : Parser) : Prop :=
  ∃ ts us, Enclosing p.root p.enclosing ts ∧ p.focus.Read p.enclosing us ∧
    p.tokens.toList = ts ++ us

section Account

variable {d : Nat} {root : NodeBuilder} {tokens : Array Token} {f : OpenForm} {slot : Slot}
  {outer : List (OpenForm × Slot)} {ts us : List Token}

/-- A parser accounts for its tokens if those of an open form come last. -/
theorem accounts_of_slot (h : Enclosing root outer ts) (hf : f.Read (.slot slot) us)
    (hfit : f.Fits outer) (ht : tokens.toList = ts ++ us) :
    Accounts ⟨d, root, tokens, (f, slot) :: outer, .expression⟩ := by
  refine ⟨_, _, .form h hf hfit, .expression, ?_⟩
  rw [ht, List.append_nil]

theorem accounts_of_close (h : Enclosing root outer ts) (hf : f.Read .close us)
    (hfit : f.Fits outer) (ht : tokens.toList = ts ++ us) :
    Accounts ⟨d, root, tokens, outer, .close f⟩ :=
  ⟨_, _, h, .close hf hfit, ht⟩

/-- A complete node is accounted for in the open form that takes it. -/
theorem accounts_of_child {n : Node} {q : Parser} {vs : List Token}
    (h : Delivery ⟨d, root, tokens, (f, slot) :: outer, .expression⟩ n q)
    (henc : Enclosing root outer ts) (hf : f.Read (.slot slot) us) (hfit : f.Fits outer)
    (hn : Spelled n vs) (hk : n.kind.isExpression = true)
    (ht : tokens.toList = ts ++ (us ++ vs)) : q.Accounts := by
  cases h with
  | domain =>
    exact accounts_of_slot henc (hf.child hn hk fun hb => hb.add_domain rfl) hfit ht
  | codomain =>
    exact accounts_of_slot henc (hf.child hn hk fun hb => hb.add_codomain rfl) hfit ht
  | value hd hc =>
    exact accounts_of_close henc (hf.child hn hk fun hb => hb.add_value hd hc rfl) hfit ht
  | function =>
    exact accounts_of_slot henc (hf.child hn hk fun hb => hb.add_function rfl) hfit ht
  | more =>
    exact accounts_of_slot henc (hf.child hn hk fun hb => hb.add_more rfl) hfit ht
  | argument hid =>
    cases hn with
    | form => cases hid
    | @leaf t kind hleaf =>
      cases hid
      refine accounts_of_slot henc ?_ hfit ht
      exact hf.child (.leaf hleaf) hk fun hb => hb.add_argument (eq_identifier_of_leafKind? hleaf)

end Account

/-- A complete node is accounted for wherever it is delivered. -/
theorem accounts_of_delivery {p q : Parser} {n : Node} {ts us : List Token} (h : Delivery p n q)
    (hp : Enclosing p.root p.enclosing ts) (hn : Spelled n us)
    (hk : n.kind.isExpression = true ∨ p.enclosing = []) (ht : p.tokens.toList = ts ++ us) :
    q.Accounts := by
  obtain ⟨d, root, tokens, enclosing, focus⟩ := p
  cases hp with
  | @root parts hl hx =>
    cases h with
    | form =>
      have hroot := @Enclosing.root (parts ++ [⟨none, n, us⟩])
        (List.forall_mem_append.2 ⟨hl, List.forall_mem_singleton.2 rfl⟩)
        (List.forall_mem_append.2 ⟨hx, List.forall_mem_singleton.2 hn⟩)
      rw [List.map_append, List.flatMap_append, List.flatMap_singleton, ← ht] at hroot
      refine ⟨_, _, ?_, .expression, (List.append_nil _).symm⟩
      rw [NodeBuilder.pushUnnamed, List.push_toArray]
      exact hroot
  | form henc hf hfit =>
    have hx := hk.resolve_right (List.cons_ne_nil _ _)
    have hfocus : focus = .expression := by cases h <;> rfl
    subst hfocus
    rw [List.append_assoc] at ht
    exact accounts_of_child h henc hf hfit hn hx ht

/-- A word that is no keyword is read in the application that the parenthesis before it has opened. -/
theorem accounts_of_head {d : Nat} {root : NodeBuilder} {tokens : Array Token}
    {enclosing : List (OpenForm × Slot)} {opening : Span}
    (h : Accounts ⟨d, root, tokens, enclosing, .head opening⟩) :
    Accounts ⟨d, root, tokens, (⟨opening, .empty .application⟩, .function) :: enclosing,
      .expression⟩ := by
  obtain ⟨ts, us, henc, hread, htokens⟩ := h
  cases hread with
  | head ho => exact accounts_of_slot henc (OpenForm.read_opening ho .function) (Or.inl rfl) htokens

/-- Where a claim or a definition may begin, no form is open. -/
theorem eq_nil_of_admits {arrows : Bool} {p : Parser} {opening : Span} {kind : FormKind}
    {word : Keyword} (hf : p.focus = .head opening) (hk : Binds kind word)
    (hm : p.mode.Admits arrows (.keyword word)) : p.enclosing = [] := by
  by_contra hne
  have hmode : p.mode = .head := by simp [mode, hf, hne]
  rw [hmode] at hm
  cases hk <;> cases hm

/-- Only the choice of keywords depends on the mode. -/
theorem admits_of_ne_keyword {arrows : Bool} {mode mode' : LexMode} {kind : TokenKind}
    (hk : ∀ word, kind ≠ .keyword word) (hm : mode.Admits arrows kind) :
    mode'.Admits arrows kind := by
  cases kind with
  | keyword word => exact absurd rfl (hk word)
  | _ => exact hm

/-- **One step.**  A step accounts for its token, if the token stands behind all others. -/
theorem accounts_of_step {arrows : Bool} {p q : Parser} {t : Token} (h : Step p t q)
    (hp : p.Accounts) (hm : p.mode.Admits arrows t.kind)
    (hspan : ∀ u ∈ p.tokens.toList, u.span.start ≤ t.span.start ∧ u.span.stop ≤ t.span.stop) :
    q.Accounts := by
  induction h with
  | leaf ht hq =>
    obtain ⟨ts, us, henc, hread, htokens⟩ := hp
    cases hread
    refine accounts_of_delivery hq henc (.leaf ht) (Or.inl rfl) ?_
    rw [Array.toList_push, htokens, List.append_nil]
  | @opening d root tokens enclosing t ht =>
    obtain ⟨ts, us, henc, hread, htokens⟩ := hp
    cases hread
    refine ⟨ts, [t], henc, .head ht, ?_⟩
    rw [Array.toList_push, htokens, List.append_nil]
  | @closing d root tokens f field outer t q ht hq =>
    obtain ⟨_, us, henc, hread, htokens⟩ := hp
    cases hread
    cases henc with
    | @form _ _ _ _ ts us henc hf hfit =>
      rw [List.append_nil] at htokens
      have hspelled := hf.spelled trivial ht fun u hu =>
        hspan u (by rw [htokens]; exact List.mem_append_right ts hu)
      refine accounts_of_delivery hq henc hspelled hfit ?_
      rw [Array.toList_push, htokens, List.append_assoc]
  | @closingArguments d root tokens f opening outer t ht =>
    obtain ⟨_, us, henc, hread, htokens⟩ := hp
    cases hread
    cases henc with
    | form henc hf hfit =>
      refine accounts_of_slot henc (hf.word t fun hb => hb.close_arguments ht) hfit ?_
      rw [Array.toList_push, htokens, List.append_nil, List.append_assoc]
  | @binding d root tokens enclosing opening t kind word ht hk hd =>
    obtain ⟨ts, us, henc, hread, htokens⟩ := hp
    -- The lexer gives these keywords only where no form is open.
    rw [ht] at hm
    have hnil := eq_nil_of_admits rfl hk hm
    cases hread with
    | head ho =>
      refine ⟨ts, _, henc, .name (OpenForm.read_opening ho (.name hk ht)) (Or.inr hnil), ?_⟩
      rw [Array.toList_push, htokens, List.append_assoc]
      rfl
  | @lambda d root tokens enclosing opening t ht hd =>
    obtain ⟨ts, us, henc, hread, htokens⟩ := hp
    cases hread with
    | head ho =>
      refine ⟨ts, _, henc, .parameters (OpenForm.read_opening ho (.parameters ht)) (Or.inl rfl), ?_⟩
      rw [Array.toList_push, htokens, List.append_assoc]
      rfl
  | @arrow d root tokens enclosing opening t ht hd =>
    obtain ⟨ts, us, henc, hread, htokens⟩ := hp
    cases hread with
    | head ho =>
      refine accounts_of_slot henc (OpenForm.read_opening ho (.domain ht)) (Or.inl rfl) ?_
      rw [Array.toList_push, htokens, List.append_assoc]
      rfl
  | @application d root tokens enclosing opening t q ht hd hq ih =>
    exact ih (accounts_of_head hp) (admits_of_ne_keyword ht hm) hspan
  | @name d root tokens enclosing f t ht =>
    obtain ⟨ts, us, henc, hread, htokens⟩ := hp
    cases hread with
    | name hf hfit =>
      have hnamed := hf.child (spelled_name ht) rfl fun hb => hb.add_name ht
      refine accounts_of_slot henc hnamed hfit ?_
      rw [Array.toList_push, htokens, List.append_assoc]
  | @parameters d root tokens enclosing f t ht hd =>
    obtain ⟨ts, us, henc, hread, htokens⟩ := hp
    cases hread with
    | parameters hf hfit =>
      refine accounts_of_slot henc (hf.word t fun hb => hb.open_arguments ht) hfit ?_
      rw [Array.toList_push, htokens, List.append_assoc]
  | @close d root tokens enclosing f t q ht hq =>
    obtain ⟨ts, us, henc, hread, htokens⟩ := hp
    cases hread with
    | close hf hfit =>
      have hspelled := hf.spelled trivial ht fun u hu =>
        hspan u (by rw [htokens]; exact List.mem_append_right ts hu)
      refine accounts_of_delivery hq henc hspelled hfit ?_
      rw [Array.toList_push, htokens, List.append_assoc]

/-- While a scan is read, all of it is accounted for. -/
theorem accounts_of_scan {maxDepth : Nat} {lx last : Lexer} {ts : List Token} {q : Parser}
    (hts : Lexer.Scan .initial lx ts last) (hq : (initial maxDepth).readAll ts = .ok q) :
    q.Accounts := by
  -- That the tokens stand in order is kept along with it, for a form joins the spans of its
  -- parentheses and only their order says which of them comes first.
  have kept := invariant_of_scan (p := initial maxDepth)
    (I := fun p lx => p.Accounts ∧ ∀ u ∈ p.tokens.toList,
      u.span.start ≤ lx.cursor.offset ∧ u.span.stop ≤ lx.cursor.offset) ?_ hts hq ?_
  · exact kept.1
  · rintro p q lx mid t ⟨hp, hbefore⟩ ht hk hstep
    have took := Lexer.took_of_next ht
    have hstart := took.leading_tiles.le
    have hstop : t.span.start ≤ t.span.stop := by
      rw [took.span_eq]
      exact Nat.le_add_right _ _
    constructor
    · refine accounts_of_step hstep hp (admits_of_lexeme took.lexeme_eq) ?_
      intro u hu
      have := hbefore u hu
      omega
    · intro u hu
      rw [tokens_of_step hstep, Array.toList_push] at hu
      rw [took.offset_eq]
      rcases List.mem_append.1 hu with hu | hu
      · have := hbefore u hu
        omega
      · rw [List.mem_singleton.1 hu]
        exact ⟨hstop, Nat.le_refl _⟩
  · constructor
    · refine ⟨[], [], @Enclosing.root [] ?_ ?_, .expression, rfl⟩
      · exact fun x hx => absurd hx List.not_mem_nil
      · exact fun x hx => absurd hx List.not_mem_nil
    · exact fun u hu => absurd hu List.not_mem_nil

/-- Before a head, the last token read is its parenthesis. -/
theorem exists_opening_of_head {maxDepth : Nat} {lx last : Lexer} {ts : List Token} {q : Parser}
    {opening : Span} (hts : Lexer.Scan .initial lx ts last)
    (hq : (initial maxDepth).readAll ts = .ok q) (hf : q.focus = .head opening) :
    ∃ before o, ts = before ++ [o] ∧ o.kind = .leftParen ∧ o.span = opening := by
  obtain ⟨us, vs, -, hread, htokens⟩ := accounts_of_scan hts hq
  have hall : q.tokens.toList = ts := tokens_of_readAll hq
  rw [hf] at hread
  cases hread with
  | @head o _ ho => exact ⟨us, o, hall ▸ htokens, ho, rfl⟩

end Parser

/-! ## Whole trees -/

/-- `n` is read from all tokens between two that match, which are among `ts`, and stands from the
first to the second. -/
def Node.Parenthesised (n : Node) (ts : List Token) : Prop :=
  ∃ opening inside closing, opening.kind = .leftParen ∧ closing.kind = .rightParen ∧
    Balanced inside ∧ opening :: (inside ++ [closing]) <:+: ts ∧
    Spelled n (opening :: (inside ++ [closing])) ∧
    n.span = ⟨opening.span.start, closing.span.stop⟩

/-- A form that is spelled by tokens stands between two of them that are parentheses. -/
theorem Spelled.parenthesised {n : Node} {us ts : List Token} (h : Spelled n us)
    (hus : us <:+: ts) (hn : n.kind.isLeaf = false) : n.Parenthesised ts := by
  cases h with
  | leaf => cases hn
  | @form kind opening closing parts inside ho hc hl hp hx =>
    have hinside := hl.balanced fun x hmem => (hp x hmem).balanced
    exact ⟨opening, inside, closing, ho, hc, hinside, hus, .form ho hc hl hp hx, rfl⟩

/-- The tokens of `tree` spell its nodes, and the nodes stand in `source` as their tokens do. -/
structure SyntaxTree.Spells (tree : SyntaxTree) (source : List Char) : Prop where
  /-- The root stands for all of the source, and its children are read from all tokens. -/
  root : ∃ parts : List Part,
    tree.root = .form .source ⟨0, byteLength source⟩ (parts.map Part.child) ∧
    (∀ x ∈ parts, x.label = none ∧ Spelled x.node x.tokens) ∧
    tree.tokens = parts.flatMap Part.tokens
  /-- Every other node is read from tokens that stand together. -/
  below : ∀ n ∈ tree.root.descendants, n = tree.root ∨ ∃ ts, ts <:+: tree.tokens ∧ Spelled n ts
  /-- Every other form stands from its own parenthesis to the one that matches it. -/
  parentheses : ∀ n ∈ tree.root.descendants,
    n = tree.root ∨ n.kind.isLeaf = true ∨ n.Parenthesised tree.tokens
  /-- Siblings are disjoint and in order. -/
  ordered : ∀ n ∈ tree.root.descendants,
    n.children.Pairwise fun m c => m.span.stop ≤ c.span.start
  /-- Children stand strictly between the parentheses of their parent. -/
  inside : ∀ n ∈ tree.root.descendants, n = tree.root ∨
    ∀ c ∈ n.children, n.span.start < c.span.start ∧ c.span.stop < n.span.stop

section Parse

variable {settings : Settings} {source : List Char} {tree : SyntaxTree}

/-- The children of a root spell all the tokens of the tree, one after the other. -/
theorem exists_parts_of_parse (h : parse settings source = .ok tree) :
    ∃ parts : List Part, tree.root = .form .source ⟨0, byteLength source⟩ (parts.map Part.child) ∧
      (∀ x ∈ parts, x.label = none ∧ Spelled x.node x.tokens) ∧
      tree.tokens = parts.flatMap Part.tokens := by
  obtain ⟨q, here, last, t, hts, hq, hidle, ht, hk, htree⟩ := exists_scan_of_parse h
  have hstop : t.span.stop = byteLength source := by
    rw [Lexer.eq_atEnd hts (Lexer.took_of_next ht) hk]
    rfl
  obtain ⟨ts, us, henc, hread, htokens⟩ := Parser.accounts_of_scan hts hq
  obtain ⟨d, root, tokens, enclosing, focus⟩ := q
  cases hread with
  | expression =>
    cases henc with
    | @root parts hl hp =>
      refine ⟨parts, ?_, fun x hx => ⟨hl x hx, hp x hx⟩, ?_⟩
      · rw [htree, ← hstop]
        rfl
      · rw [List.append_nil] at htokens
        rw [htree]
        exact htokens
    | form => cases hidle
  | _ => cases hidle

/-- The tokens of a tree are in the order of the source. -/
theorem inOrder_of_parse (h : parse settings source = .ok tree) : InOrder tree.tokens := by
  obtain ⟨q, here, last, t, hts, -⟩ := exists_scan_of_parse h
  exact hts.inOrder

/-- Everything below a form at top level is spelled. -/
theorem spelled_of_mem_form (h : parse settings source = .ok tree) {f n : Node}
    (hf : f ∈ tree.forms) (hn : n ∈ f.descendants) : ∃ ts, ts <:+: tree.tokens ∧ Spelled n ts := by
  obtain ⟨parts, hroot, hparts, htokens⟩ := exists_parts_of_parse h
  rw [SyntaxTree.forms, hroot, children_form] at hf
  obtain ⟨x, hx, rfl⟩ := List.mem_map.1 hf
  obtain ⟨ts, hts, hspelled⟩ := (hparts x hx).2.of_mem_descendants hn
  refine ⟨ts, hts.trans ?_, hspelled⟩
  rw [htokens]
  exact tokens_infix_flatMap hx

/-- Below the root, everything is spelled. -/
theorem spelled_of_mem_descendants (h : parse settings source = .ok tree) {n : Node}
    (hn : n ∈ tree.root.descendants) :
    n = tree.root ∨ ∃ ts, ts <:+: tree.tokens ∧ Spelled n ts := by
  rcases Node.mem_descendants_iff.1 hn with hroot | ⟨f, hf, hn⟩
  · exact Or.inl hroot
  · exact Or.inr (spelled_of_mem_form h hf hn)

/-- **The tree is the token stream.**  Every token of a parse is read in exactly one place of the
tree, and nodes stand where their tokens do. -/
theorem parse_spells_tokens (h : parse settings source = .ok tree) : tree.Spells source where
  root := exists_parts_of_parse h
  below := fun n hn => spelled_of_mem_descendants h hn
  parentheses := by
    intro n hn
    rcases spelled_of_mem_descendants h hn with hroot | ⟨ts, hts, hspelled⟩
    · exact Or.inl hroot
    · right
      cases hleaf : n.kind.isLeaf with
      | true => exact Or.inl rfl
      | false => exact Or.inr (hspelled.parenthesised hts hleaf)
  ordered := by
    intro n hn
    rcases spelled_of_mem_descendants h hn with rfl | ⟨ts, hts, hspelled⟩
    · obtain ⟨parts, hroot, hparts, htokens⟩ := exists_parts_of_parse h
      have horder := inOrder_of_parse h
      rw [htokens] at horder
      -- The root has no parentheses of its own, but its children stand in order all the same.
      rw [hroot, children_form]
      exact pairwise_of_spelled (fun x hx => (hparts x hx).2) horder
    · exact hspelled.ordered ((inOrder_of_parse h).sublist hts.sublist)
  inside := by
    intro n hn
    rcases spelled_of_mem_descendants h hn with hroot | ⟨ts, hts, hspelled⟩
    · exact Or.inl hroot
    · exact Or.inr (hspelled.inside ((inOrder_of_parse h).sublist hts.sublist))

end Parse

/-- The nodes and the tokens of a definition. -/
theorem parse_spells_tokens_definition :
    ∃ tree, parse {} "(define id (lambda (x) x))".toList = .ok tree ∧
      tree.Spells "(define id (lambda (x) x))".toList := by
  have hsome : (parse {} "(define id (lambda (x) x))".toList).toOption.isSome = true := by
    decide +kernel
  obtain ⟨tree, h⟩ := exists_tree_of_isSome hsome
  exact ⟨tree, h, parse_spells_tokens h⟩

end PieSyntax
