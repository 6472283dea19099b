/-
# What one token does to a parser

A parser that reads a token either goes on in a new state or refuses the token.  The relations
`Parser.Step` and `Parser.Refusal` list all the ways in which this happens, one constructor for each,
`Parser.read_cases` says that there are no others, and `Parser.read_of_step` and
`Parser.read_of_refusal` that each of them happens.  What a parse keeps and why it fails is proved by
cases on them; nothing after this module opens `Parser.read`.
-/
import PieSyntax.Parser

namespace PieSyntax

/-- The forms that bind a name, each with the keyword at its head. -/
inductive Binds : FormKind → Keyword → Prop
  | claim : Binds .claim .claim
  | define : Binds .define .define

namespace Parser

/-! ## Completed nodes -/

/-- Where a completed node goes: `Delivery p n q` says that `p` with the node `n` in its place
is `q`. -/
inductive Delivery : Parser → Node → Parser → Prop
  | form {d root ts n} :
      Delivery ⟨d, root, ts, [], .expression⟩ n ⟨d, root.pushUnnamed n, ts, [], .expression⟩
  | domain {d root ts f outer n} :
      Delivery ⟨d, root, ts, (f, .required .domain) :: outer, .expression⟩ n
        ⟨d, root, ts, (f.push .domain n, .required .codomain) :: outer, .expression⟩
  | codomain {d root ts f outer n} :
      Delivery ⟨d, root, ts, (f, .required .codomain) :: outer, .expression⟩ n
        ⟨d, root, ts, (f.push .codomain n, .more .codomain) :: outer, .expression⟩
  | value {d root ts f field outer n} (hd : field ≠ .domain) (hc : field ≠ .codomain) :
      Delivery ⟨d, root, ts, (f, .required field) :: outer, .expression⟩ n
        ⟨d, root, ts, outer, .close (f.push field n)⟩
  | function {d root ts f outer n} :
      Delivery ⟨d, root, ts, (f, .function) :: outer, .expression⟩ n
        ⟨d, root, ts, (f.push .function n, .more .arguments) :: outer, .expression⟩
  | more {d root ts f field outer n} :
      Delivery ⟨d, root, ts, (f, .more field) :: outer, .expression⟩ n
        ⟨d, root, ts, (f.push field n, .more field) :: outer, .expression⟩
  | argument {d root ts f opening outer n} (hn : n.kind = .leaf .identifier) :
      Delivery ⟨d, root, ts, (f, .argument opening) :: outer, .expression⟩ n
        ⟨d, root, ts, (f.push .arguments n, .argument opening) :: outer, .expression⟩

/-- Why a node is turned away: it stands among the arguments of a lambda and is no name. -/
inductive Misfit : Parser → Node → ParseError → Prop
  | argument {d root ts f opening outer n} (hn : n.kind ≠ .leaf .identifier) :
      Misfit ⟨d, root, ts, (f, .argument opening) :: outer, .expression⟩ n
        (.nonIdentifierArgument n.kind n.span)

/-- A node is put in its place or turned away. -/
theorem deliver_cases (d : Nat) (root : NodeBuilder) (ts : Array Token)
    (enclosing : List (OpenForm × Slot)) (n : Node) :
    (∃ q, deliver ⟨d, root, ts, enclosing, .expression⟩ n = .ok q ∧
        Delivery ⟨d, root, ts, enclosing, .expression⟩ n q) ∨
      ∃ e, deliver ⟨d, root, ts, enclosing, .expression⟩ n = .error e ∧
        Misfit ⟨d, root, ts, enclosing, .expression⟩ n e := by
  rcases enclosing with _ | ⟨⟨f, slot⟩, outer⟩
  · exact Or.inl ⟨_, rfl, .form⟩
  · cases slot with
    | required field =>
      left
      cases field with
      | domain => exact ⟨_, rfl, .domain⟩
      | codomain => exact ⟨_, rfl, .codomain⟩
      | _ => exact ⟨_, rfl, .value (by simp) (by simp)⟩
    | function => exact Or.inl ⟨_, rfl, .function⟩
    | more field => exact Or.inl ⟨_, rfl, .more⟩
    | argument opening =>
      by_cases hn : n.kind = .leaf .identifier
      · left
        refine ⟨_, ?_, .argument hn⟩
        simp [deliver, fill, enter, hn]
      · right
        refine ⟨_, ?_, .argument hn⟩
        simp [deliver, fill, hn]

/-! ## Steps -/

/-- The ways to read a token: `Step p t q` says that `p` reads `t` and becomes `q`. -/
inductive Step : Parser → Token → Parser → Prop
  | leaf {d root ts enclosing t kind q} (ht : leafKind? t.kind = some kind)
      (hq : Delivery ⟨d, root, ts.push t, enclosing, .expression⟩ (.leaf kind t.span t.text) q) :
      Step ⟨d, root, ts, enclosing, .expression⟩ t q
  | opening {d root ts enclosing t} (ht : t.kind = .leftParen) :
      Step ⟨d, root, ts, enclosing, .expression⟩ t ⟨d, root, ts.push t, enclosing, .head t.span⟩
  | closing {d root ts f field outer t q} (ht : t.kind = .rightParen)
      (hq : Delivery ⟨d, root, ts.push t, outer, .expression⟩ (f.close t.span) q) :
      Step ⟨d, root, ts, (f, .more field) :: outer, .expression⟩ t q
  | closingArguments {d root ts f opening outer t} (ht : t.kind = .rightParen) :
      Step ⟨d, root, ts, (f, .argument opening) :: outer, .expression⟩ t
        ⟨d, root, ts.push t, (f, .required .body) :: outer, .expression⟩
  | binding {d root ts enclosing opening t kind word} (ht : t.kind = .keyword word)
      (hk : Binds kind word)
      (hd : depth ⟨d, root, ts, enclosing, .head opening⟩ < d) :
      Step ⟨d, root, ts, enclosing, .head opening⟩ t
        ⟨d, root, ts.push t, enclosing, .name ⟨opening, .empty kind⟩⟩
  | lambda {d root ts enclosing opening t} (ht : t.kind = .keyword .lambda)
      (hd : depth ⟨d, root, ts, enclosing, .head opening⟩ < d) :
      Step ⟨d, root, ts, enclosing, .head opening⟩ t
        ⟨d, root, ts.push t, enclosing, .parameters ⟨opening, .empty .lambda⟩⟩
  | arrow {d root ts enclosing opening t} (ht : t.kind = .keyword .arrow)
      (hd : depth ⟨d, root, ts, enclosing, .head opening⟩ < d) :
      Step ⟨d, root, ts, enclosing, .head opening⟩ t
        ⟨d, root, ts.push t, (⟨opening, .empty .functionType⟩, .required .domain) :: enclosing,
          .expression⟩
  | application {d root ts enclosing opening t q} (ht : ∀ word, t.kind ≠ .keyword word)
      (hd : depth ⟨d, root, ts, enclosing, .head opening⟩ < d)
      (hq : Step ⟨d, root, ts, (⟨opening, .empty .application⟩, .function) :: enclosing,
        .expression⟩ t q) :
      Step ⟨d, root, ts, enclosing, .head opening⟩ t q
  | name {d root ts enclosing f t} (ht : t.kind = .identifier) :
      Step ⟨d, root, ts, enclosing, .name f⟩ t
        ⟨d, root, ts.push t, (f.push .identifier (.leaf .identifier t.span t.text),
          .required (valueField f.node.kind)) :: enclosing, .expression⟩
  | parameters {d root ts enclosing f t} (ht : t.kind = .leftParen)
      (hd : depth ⟨d, root, ts, enclosing, .parameters f⟩ < d) :
      Step ⟨d, root, ts, enclosing, .parameters f⟩ t
        ⟨d, root, ts.push t, (f, .argument t.span) :: enclosing, .expression⟩
  | close {d root ts enclosing f t q} (ht : t.kind = .rightParen)
      (hq : Delivery ⟨d, root, ts.push t, enclosing, .expression⟩ (f.close t.span) q) :
      Step ⟨d, root, ts, enclosing, .close f⟩ t q

/-- A completed node is no new token. -/
theorem tokens_of_delivery {p q : Parser} {n : Node} (h : Delivery p n q) :
    q.tokens = p.tokens := by
  cases h <;> rfl

/-- The limit stays the same when a node finds its place. -/
theorem maxDepth_of_delivery {p q : Parser} {n : Node} (h : Delivery p n q) :
    q.maxDepth = p.maxDepth := by
  cases h <;> rfl

/-- A parser keeps the tokens that it reads. -/
theorem tokens_of_step {p q : Parser} {t : Token} (h : Step p t q) :
    q.tokens = p.tokens.push t := by
  induction h with
  | leaf ht hq | closing ht hq | close ht hq => rw [tokens_of_delivery hq]
  | application ht hd hq ih => exact ih
  | _ => rfl

/-- No step changes the limit on nesting. -/
theorem maxDepth_of_step {p q : Parser} {t : Token} (h : Step p t q) :
    q.maxDepth = p.maxDepth := by
  induction h with
  | leaf ht hq | closing ht hq | close ht hq => rw [maxDepth_of_delivery hq]
  | application ht hd hq ih => exact ih
  | _ => rfl

/-- The root stays what it is when a node finds its place. -/
theorem rootKind_of_delivery {p q : Parser} {n : Node} (h : Delivery p n q) :
    q.root.kind = p.root.kind := by
  cases h <;> rfl

/-- The root remains of its kind. -/
theorem rootKind_of_step {p q : Parser} {t : Token} (h : Step p t q) :
    q.root.kind = p.root.kind := by
  induction h with
  | leaf ht hq | closing ht hq | close ht hq => rw [rootKind_of_delivery hq]
  | application ht hd hq ih => exact ih
  | _ => rfl

/-- A token that may stand where an expression begins is an opening parenthesis or a leaf. -/
theorem leafKind?_eq_none_iff {k : TokenKind} :
    leafKind? k = none ↔ k = .leftParen ∨ k.startsExpression = false := by
  cases k <;> simp [leafKind?, TokenKind.startsExpression]

/-- Among the classes of tokens, names alone become name leaves. -/
theorem eq_identifier_of_leafKind? {k : TokenKind} (h : leafKind? k = some .identifier) :
    k = .identifier := by
  cases k with
  | identifier => rfl
  | _ => cases h

/-! ## Refusals -/

/-- The ways to refuse a token: `Refusal p t e` says that `p` cannot read `t` because of `e`. -/
inductive Refusal : Parser → Token → ParseError → Prop
  | topLevel {d root ts t} (ht : t.kind.startsExpression = false) :
      Refusal ⟨d, root, ts, [], .expression⟩ t
        (reject ⟨d, root, ts, [], .expression⟩ t [.topLevelForm] .source)
  | missing {d root ts f field outer t} (ht : t.kind = .rightParen) :
      Refusal ⟨d, root, ts, (f, .required field) :: outer, .expression⟩ t
        (.missingExpression f.production t.span)
  | unexpected {d root ts f slot outer t} (ht : t.kind.startsExpression = false)
      (hs : t.kind = .rightParen → slot = .function) :
      Refusal ⟨d, root, ts, (f, slot) :: outer, .expression⟩ t
        (reject ⟨d, root, ts, (f, slot) :: outer, .expression⟩ t slot.expected (slot.context f))
  | leaf {d root ts enclosing t kind e} (ht : leafKind? t.kind = some kind)
      (he : Misfit ⟨d, root, ts.push t, enclosing, .expression⟩ (.leaf kind t.span t.text) e) :
      Refusal ⟨d, root, ts, enclosing, .expression⟩ t e
  | closing {d root ts f field outer t e} (ht : t.kind = .rightParen)
      (he : Misfit ⟨d, root, ts.push t, outer, .expression⟩ (f.close t.span) e) :
      Refusal ⟨d, root, ts, (f, .more field) :: outer, .expression⟩ t e
  | deepForm {d root ts enclosing opening t}
      (hd : d ≤ depth ⟨d, root, ts, enclosing, .head opening⟩) :
      Refusal ⟨d, root, ts, enclosing, .head opening⟩ t (.depthExceeded d opening)
  | application {d root ts enclosing opening t e} (ht : ∀ word, t.kind ≠ .keyword word)
      (hd : depth ⟨d, root, ts, enclosing, .head opening⟩ < d)
      (he : Refusal ⟨d, root, ts, (⟨opening, .empty .application⟩, .function) :: enclosing,
        .expression⟩ t e) :
      Refusal ⟨d, root, ts, enclosing, .head opening⟩ t e
  | name {d root ts enclosing f t} (ht : t.kind ≠ .identifier) :
      Refusal ⟨d, root, ts, enclosing, .name f⟩ t
        (reject ⟨d, root, ts, enclosing, .name f⟩ t [.identifier] f.production)
  | parameters {d root ts enclosing f t} (ht : t.kind ≠ .leftParen) :
      Refusal ⟨d, root, ts, enclosing, .parameters f⟩ t
        (reject ⟨d, root, ts, enclosing, .parameters f⟩ t [.leftParen] f.production)
  | deepArguments {d root ts enclosing f t} (ht : t.kind = .leftParen)
      (hd : d ≤ depth ⟨d, root, ts, enclosing, .parameters f⟩) :
      Refusal ⟨d, root, ts, enclosing, .parameters f⟩ t (.depthExceeded d t.span)
  | extra {d root ts enclosing f t} (ht : t.kind.startsExpression = true) :
      Refusal ⟨d, root, ts, enclosing, .close f⟩ t (.extraExpression f.production t.span)
  | closed {d root ts enclosing f t e} (ht : t.kind = .rightParen)
      (he : Misfit ⟨d, root, ts.push t, enclosing, .expression⟩ (f.close t.span) e) :
      Refusal ⟨d, root, ts, enclosing, .close f⟩ t e
  | close {d root ts enclosing f t} (hp : t.kind ≠ .rightParen)
      (ht : t.kind.startsExpression = false) :
      Refusal ⟨d, root, ts, enclosing, .close f⟩ t
        (reject ⟨d, root, ts, enclosing, .close f⟩ t [.rightParen] f.production)

/-! ## There are no others -/

/-- The result `r` of reading `t` in `p` is one of those listed. -/
def Listed (p : Parser) (t : Token) (r : Except ParseError Parser) : Prop :=
  (∃ q, r = .ok q ∧ Step p t q) ∨ ∃ e, r = .error e ∧ Refusal p t e

/-- Where an expression is expected, the answer is one of those listed. -/
theorem readExpression_listed (d : Nat) (root : NodeBuilder) (ts : Array Token)
    (enclosing : List (OpenForm × Slot)) (t : Token) :
    Listed ⟨d, root, ts, enclosing, .expression⟩ t
      (readExpression ⟨d, root, ts, enclosing, .expression⟩ t) := by
  unfold readExpression
  cases hl : leafKind? t.kind with
  | some kind =>
    rcases deliver_cases d root (ts.push t) enclosing (.leaf kind t.span t.text) with
      ⟨q, hr, hq⟩ | ⟨e, hr, he⟩
    · exact Or.inl ⟨q, hr, .leaf hl hq⟩
    · exact Or.inr ⟨e, hr, .leaf hl he⟩
  | none =>
    by_cases hp : t.kind = .leftParen
    · refine Or.inl ⟨_, ?_, .opening hp⟩
      simp [hp, advance]
    · have hs : t.kind.startsExpression = false := by
        simpa [hp] using leafKind?_eq_none_iff.1 hl
      simp only [hp, if_false]
      rcases enclosing with _ | ⟨⟨f, slot⟩, outer⟩
      · exact Or.inr ⟨_, rfl, .topLevel hs⟩
      · by_cases hc : t.kind = .rightParen
        · simp only [hc, if_true]
          cases slot with
          | required field => exact Or.inr ⟨_, rfl, .missing hc⟩
          | function => exact Or.inr ⟨_, rfl, .unexpected hs fun _ => rfl⟩
          | more field =>
            rcases deliver_cases d root (ts.push t) outer (f.close t.span) with
              ⟨q, hr, hq⟩ | ⟨e, hr, he⟩
            · exact Or.inl ⟨q, hr, .closing hc hq⟩
            · exact Or.inr ⟨e, hr, .closing hc he⟩
          | argument opening => exact Or.inl ⟨_, rfl, .closingArguments hc⟩
        · simp only [hc, if_false]
          exact Or.inr ⟨_, rfl, .unexpected hs fun h => absurd h hc⟩

/-- Behind an opening parenthesis, the answer is one of those listed. -/
theorem readHead_listed (d : Nat) (root : NodeBuilder) (ts : Array Token)
    (enclosing : List (OpenForm × Slot)) (opening : Span) (t : Token) :
    Listed ⟨d, root, ts, enclosing, .head opening⟩ t
      (readHead ⟨d, root, ts, enclosing, .head opening⟩ opening t) := by
  unfold readHead guardDepth
  by_cases hd : depth ⟨d, root, ts, enclosing, .head opening⟩ < d
  · rw [if_neg (Nat.not_le.2 hd)]
    by_cases ht : ∃ word, t.kind = .keyword word
    · obtain ⟨word, ht⟩ := ht
      left
      simp only [ht]
      cases word with
      | claim => exact ⟨_, rfl, .binding ht .claim hd⟩
      | define => exact ⟨_, rfl, .binding ht .define hd⟩
      | lambda => exact ⟨_, rfl, .lambda ht hd⟩
      | arrow => exact ⟨_, rfl, .arrow ht hd⟩
    · have ht' : ∀ word, t.kind ≠ .keyword word := fun word h => ht ⟨word, h⟩
      have listed := readExpression_listed d root ts
        ((⟨opening, .empty .application⟩, .function) :: enclosing) t
      split
      · exact absurd ‹_› (ht' _)
      · exact absurd ‹_› (ht' _)
      · exact absurd ‹_› (ht' _)
      · exact absurd ‹_› (ht' _)
      · rcases listed with ⟨q, hr, hq⟩ | ⟨e, hr, he⟩
        · exact Or.inl ⟨q, hr, .application ht' hd hq⟩
        · exact Or.inr ⟨e, hr, .application ht' hd he⟩
  · rw [if_pos (Nat.not_lt.1 hd)]
    exact Or.inr ⟨_, rfl, .deepForm (Nat.not_lt.1 hd)⟩

/-- **One step.**  Reading a token is one of the listed steps or one of the listed refusals. -/
theorem read_cases (p : Parser) (t : Token) : Listed p t (p.read t) := by
  obtain ⟨d, root, ts, enclosing, focus⟩ := p
  cases focus with
  | expression => exact readExpression_listed d root ts enclosing t
  | head opening => exact readHead_listed d root ts enclosing opening t
  | name f =>
    by_cases ht : t.kind = .identifier
    · refine Or.inl ⟨_, ?_, .name ht⟩
      simp [read, ht, advance, enter]
    · refine Or.inr ⟨_, ?_, .name ht⟩
      simp [read, ht]
  | parameters f =>
    by_cases ht : t.kind = .leftParen
    · by_cases hd : depth ⟨d, root, ts, enclosing, .parameters f⟩ < d
      · refine Or.inl ⟨_, ?_, .parameters ht hd⟩
        simp only [read, ht, guardDepth, if_true, if_neg (Nat.not_le.2 hd)]
        rfl
      · refine Or.inr ⟨_, ?_, .deepArguments ht (Nat.not_lt.1 hd)⟩
        simp only [read, ht, guardDepth, if_true, if_pos (Nat.not_lt.1 hd)]
        rfl
    · refine Or.inr ⟨_, ?_, .parameters ht⟩
      simp [read, ht]
  | close f =>
    by_cases hp : t.kind = .rightParen
    · rcases deliver_cases d root (ts.push t) enclosing (f.close t.span) with
        ⟨q, hr, hq⟩ | ⟨e, hr, he⟩
      · refine Or.inl ⟨q, ?_, .close hp hq⟩
        simpa [read, hp, advance] using hr
      · refine Or.inr ⟨e, ?_, .closed hp he⟩
        simpa [read, hp, advance] using hr
    · cases hs : t.kind.startsExpression with
      | true =>
        refine Or.inr ⟨_, ?_, .extra hs⟩
        simp [read, hp, hs]
      | false =>
        refine Or.inr ⟨_, ?_, .close hp hs⟩
        simp [read, hp, hs]

theorem step_of_read {p q : Parser} {t : Token} (h : p.read t = .ok q) : Step p t q := by
  rcases read_cases p t with ⟨q', hr, hq⟩ | ⟨e, hr, -⟩
  · rw [h] at hr
    cases hr
    exact hq
  · rw [h] at hr
    cases hr

theorem refusal_of_read {p : Parser} {t : Token} {e : ParseError} (h : p.read t = .error e) :
    Refusal p t e := by
  rcases read_cases p t with ⟨q, hr, -⟩ | ⟨e', hr, he⟩
  · rw [h] at hr
    cases hr
  · rw [h] at hr
    cases hr
    exact he

/-! ## All of them happen -/

/-- A node with a place is put there. -/
theorem deliver_of_delivery {p q : Parser} {n : Node} (h : Delivery p n q) :
    p.deliver n = .ok q := by
  cases h with
  | @value d root ts f field outer n hd hc =>
    cases field with
    | domain => exact absurd rfl hd
    | codomain => exact absurd rfl hc
    | _ => rfl
  | argument hn => simp [deliver, fill, enter, hn]
  | _ => rfl

/-- A node that does not fit is turned away. -/
theorem deliver_of_misfit {p : Parser} {n : Node} {e : ParseError} (h : Misfit p n e) :
    p.deliver n = .error e := by
  cases h with
  | argument hn => simp [deliver, fill, hn]

/-- Below the limit one more parenthesis may open. -/
theorem guardDepth_of_lt {p : Parser} {opening : Span} (h : p.depth < p.maxDepth) :
    p.guardDepth opening = .ok () := if_neg (Nat.not_le.2 h)

/-- At the limit the next parenthesis is blamed. -/
theorem guardDepth_of_le {p : Parser} (opening : Span) (h : p.maxDepth ≤ p.depth) :
    p.guardDepth opening = .error (.depthExceeded p.maxDepth opening) := if_pos h

/-- A head that is no keyword begins an application. -/
theorem read_head_of_ne_keyword {d : Nat} {root : NodeBuilder} {ts : Array Token}
    {enclosing : List (OpenForm × Slot)} {opening : Span} {t : Token}
    (ht : ∀ word, t.kind ≠ .keyword word)
    (hd : depth ⟨d, root, ts, enclosing, .head opening⟩ < d) :
    read ⟨d, root, ts, enclosing, .head opening⟩ t =
      read ⟨d, root, ts, (⟨opening, .empty .application⟩, .function) :: enclosing,
        .expression⟩ t := by
  simp only [read, readHead, guardDepth_of_lt hd]
  cases hk : t.kind with
  | keyword word => exact absurd hk (ht word)
  | _ => rfl

/-- Every listed step is taken. -/
theorem read_of_step {p q : Parser} {t : Token} (h : Step p t q) : p.read t = .ok q := by
  induction h with
  | leaf ht hq =>
    simp only [read, readExpression, ht]
    exact deliver_of_delivery hq
  | opening ht =>
    simp only [read, readExpression, leafKind?, ht, if_true]
    rfl
  | closing ht hq =>
    simp only [read, readExpression, leafKind?, ht, reduceCtorEq, if_false, if_true]
    exact deliver_of_delivery hq
  | closingArguments ht =>
    simp only [read, readExpression, leafKind?, ht, reduceCtorEq, if_false, if_true]
    rfl
  | binding ht hk hd =>
    simp only [read, readHead, guardDepth_of_lt hd, ht]
    cases hk <;> rfl
  | lambda ht hd | arrow ht hd =>
    simp only [read, readHead, guardDepth_of_lt hd, ht]
    rfl
  | application ht hd hq ih =>
    rw [read_head_of_ne_keyword ht hd]
    exact ih
  | name ht =>
    simp only [read, ht, if_true]
    rfl
  | parameters ht hd =>
    simp only [read, ht, if_true, guardDepth_of_lt hd]
    rfl
  | close ht hq =>
    simp only [read, ht, if_true]
    exact deliver_of_delivery hq

/-- A token that starts no expression is neither a leaf nor an opening parenthesis. -/
theorem leafKind?_of_not_starts {k : TokenKind} (h : k.startsExpression = false) :
    leafKind? k = none ∧ k ≠ .leftParen := by
  cases k <;> simp_all [leafKind?, TokenKind.startsExpression]

/-- Every listed refusal is made. -/
theorem read_of_refusal {p : Parser} {t : Token} {e : ParseError} (h : Refusal p t e) :
    p.read t = .error e := by
  induction h with
  | topLevel ht =>
    obtain ⟨hleaf, hparen⟩ := leafKind?_of_not_starts ht
    simp only [read, readExpression, hleaf, hparen, if_false]
  | missing ht =>
    simp only [read, readExpression, leafKind?, ht, reduceCtorEq, if_false, if_true]
  | @unexpected d root ts f slot outer t ht hs =>
    obtain ⟨hleaf, hparen⟩ := leafKind?_of_not_starts ht
    simp only [read, readExpression, hleaf, hparen, if_false]
    by_cases hc : t.kind = .rightParen
    · -- A closing parenthesis is unexpected in one slot alone.
      obtain rfl := hs hc
      simp only [hc, if_true]
    · simp only [hc, if_false]
  | leaf ht he =>
    simp only [read, readExpression, ht]
    exact deliver_of_misfit he
  | closing ht he =>
    simp only [read, readExpression, leafKind?, ht, reduceCtorEq, if_false, if_true]
    exact deliver_of_misfit he
  | @deepForm d root ts enclosing opening t hd =>
    have hguard := guardDepth_of_le (p := ⟨d, root, ts, enclosing, .head opening⟩) opening hd
    simp only [read, readHead, hguard]
    rfl
  | application ht hd he ih =>
    rw [read_head_of_ne_keyword ht hd]
    exact ih
  | name ht | parameters ht => simp only [read, ht, if_false]
  | @deepArguments d root ts enclosing f t ht hd =>
    have hguard := guardDepth_of_le (p := ⟨d, root, ts, enclosing, .parameters f⟩) t.span hd
    simp only [read, ht, if_true, hguard]
    rfl
  | @extra d root ts enclosing f t ht =>
    have hc : t.kind ≠ .rightParen := by
      intro hc
      rw [hc] at ht
      cases ht
    simp only [read, hc, ht, if_false, if_true]
  | closed ht he =>
    simp only [read, ht, if_true]
    exact deliver_of_misfit he
  | close hp ht =>
    simp only [read, hp, ht, if_false]
    rfl

end Parser

end PieSyntax
