/-
# Function types as applications

A function type can be read as an application of its arrow.  The tree says so everywhere with the
arrow put back as the function (`Node.applied`), and a parser that knows the arrow as a keyword goes
hand in hand with one that does not.  Main statements: a step of the one is a step of the other
(`Parser.step_applied`), and what the one refuses the other refuses too, unless a function type ends
before its second expression (`Parser.refusal_applied`).
-/
import PieSyntax.Proofs.Agreement
import PieSyntax.Proofs.Demotion

namespace PieSyntax

/-! ## Trees -/

/-- The kind of the form where the arrow is a name. -/
def FormKind.applied : FormKind → FormKind
  | functionType => application
  | kind => kind

/-- The field of the child where the arrow is a name. -/
def Field.applied : Field → Field
  | domain | codomain => arguments
  | field => field

/-- The name right behind the parenthesis at `start`, as the function of an application. -/
def arrowLeaf? (ts : List Token) (start : Nat) : Option (Option Field × Node) :=
  (ts.find? fun t => start < t.span.start).map fun t =>
    (some .function, .leaf .identifier t.span t.text)

/-- The children that a form at `start` has in front where the arrow is a name. -/
def FormKind.front (ts : List Token) (start : Nat) : FormKind → List (Option Field × Node)
  | functionType => (arrowLeaf? ts start).toList
  | _ => []

section Applied

variable (ts : List Token)

namespace Node

mutual

/-- The node where the arrow is a name: a function type is an application of its arrow, which is
found among the tokens `ts`, to its domain and codomains. -/
def applied : Node → Node
  | leaf kind s text => leaf kind s text
  | form kind s children => form kind.applied s (kind.front ts s.start ++ appliedAll children)

/-- The children where the arrow is a name. -/
def appliedAll : List (Option Field × Node) → List (Option Field × Node)
  | [] => []
  | (field, n) :: rest => (field.map Field.applied, n.applied) :: appliedAll rest

end

/-- The child where the arrow is a name. -/
def appliedChild (c : Option Field × Node) : Option Field × Node :=
  (c.1.map Field.applied, c.2.applied ts)

theorem appliedAll_eq_map (cs : List (Option Field × Node)) :
    appliedAll ts cs = cs.map (appliedChild ts) := by
  induction cs with
  | nil => rfl
  | cons c cs ih =>
    obtain ⟨field, n⟩ := c
    rw [appliedAll, ih]
    rfl

variable {ts} in
/-- No child but a leaf that is a function becomes one. -/
theorem eq_of_appliedChild_eq {c : Option Field × Node} {kind : LeafKind} {s : Span}
    {text : List Char} (h : appliedChild ts c = (some .function, .leaf kind s text)) :
    c = (some .function, .leaf kind s text) := by
  obtain ⟨field, n⟩ := c
  obtain ⟨hfield, hleaf⟩ := Prod.mk.inj h
  have hfunction : field = some .function := by
    cases field with
    | none => cases hfield
    | some field => cases field <;> first | rfl | cases hfield
  have hname : n = .leaf kind s text := by
    cases n with
    | leaf => exact hleaf
    | form => cases hleaf
  rw [hfunction, hname]

/-- Only the kinds of forms change: a leaf stays a leaf of its kind. -/
theorem kind_applied_eq_leaf_iff {n : Node} {kind : LeafKind} :
    (n.applied ts).kind = .leaf kind ↔ n.kind = .leaf kind := by
  cases n with
  | leaf => rfl
  | form => exact iff_of_false NodeKind.noConfusion NodeKind.noConfusion

/-- Only the name of the arrow is added to the children. -/
theorem exists_children_applied (n : Node) : ∃ front, (n.applied ts).children =
    front ++ n.children.map (applied ts) ∧ ∀ m ∈ walk front, m.kind = .leaf .identifier := by
  cases n with
  | leaf => exact ⟨[], rfl, by simp [walk]⟩
  | form kind s cs =>
    refine ⟨(kind.front ts s.start).map (·.2), ?_, ?_⟩
    · simp only [applied, appliedAll_eq_map, children, labelled, List.map_append, List.map_map]
      rfl
    · cases kind with
      | functionType =>
        cases h : ts.find? fun t => s.start < t.span.start <;>
          simp [FormKind.front, arrowLeaf?, h, walk, children, labelled, kind]
      | _ => simp [FormKind.front, walk]

/-- A walk through trees where the arrow is a name meets the nodes that it met before, and names
besides: the arrows put back. -/
theorem mem_walk_applied {n : Node} {stack : List Node} (h : n ∈ walk (stack.map (applied ts))) :
    (∃ m ∈ walk stack, n = m.applied ts) ∨ n.kind = .leaf .identifier := by
  fun_induction walk stack with
  | case1 =>
    rw [List.map_nil, walk] at h
    cases h
  | case2 top stack ih =>
    obtain ⟨front, hchildren, hfront⟩ := top.exists_children_applied ts
    rw [List.map_cons, walk, hchildren, List.append_assoc, ← List.map_append, walk_append] at h
    rcases List.mem_cons.1 h with rfl | h
    · exact Or.inl ⟨top, List.mem_cons_self, rfl⟩
    · rcases List.mem_append.1 h with h | h
      · exact Or.inr (hfront n h)
      · obtain ⟨m, hm, rfl⟩ | hleaf := ih h
        · exact Or.inl ⟨m, List.mem_cons_of_mem _ hm, rfl⟩
        · exact Or.inr hleaf

/-- Below a node where the arrow is a name are what was below it before, and names. -/
theorem mem_descendants_applied {m n : Node} (h : n ∈ (m.applied ts).descendants) :
    (∃ k ∈ m.descendants, n = k.applied ts) ∨ n.kind = .leaf .identifier :=
  @mem_walk_applied ts n [m] h

end Node

/-- The tree where the arrow is a name. -/
def SyntaxTree.applied (tree : SyntaxTree) : SyntaxTree where
  root := tree.root.applied tree.tokens
  tokens := tree.tokens.map Token.demote
  trailing := tree.trailing

/-! ## Parsers -/

/-- The form under construction where the arrow is a name, when its parenthesis is at `start`. -/
def NodeBuilder.applied (start : Nat) (b : NodeBuilder) : NodeBuilder :=
  ⟨b.kind.applied, (b.kind.front ts start).toArray ++ b.children.map (Node.appliedChild ts)⟩

/-- A child joins a form where the arrow is a name as it joins the form itself, in its changed
field. -/
theorem NodeBuilder.applied_push (start : Nat) (b : NodeBuilder) (field : Field) (n : Node) :
    (b.push field n).applied ts start = (b.applied ts start).push field.applied (n.applied ts) := by
  simp only [push, applied, Array.map_push, Array.append_push]
  rfl

theorem NodeBuilder.applied_pushUnnamed (start : Nat) (b : NodeBuilder) (n : Node) :
    (b.pushUnnamed n).applied ts start = (b.applied ts start).pushUnnamed (n.applied ts) := by
  simp only [pushUnnamed, applied, Array.map_push, Array.append_push]
  rfl

/-- A completed form has its arrow behind the parenthesis that opens it. -/
theorem NodeBuilder.applied_finish (b : NodeBuilder) (s : Span) :
    (b.finish s).applied ts = (b.applied ts s.start).finish s := by
  simp only [finish, applied, Node.applied, Node.appliedAll_eq_map, Array.toList_append,
    Array.toList_map]

namespace OpenForm

/-- The open form where the arrow is a name. -/
def applied (f : OpenForm) : OpenForm := ⟨f.opening, f.node.applied ts f.opening.start⟩

theorem applied_push (f : OpenForm) (field : Field) (n : Node) :
    (f.push field n).applied ts = (f.applied ts).push field.applied (n.applied ts) := by
  simp only [push, applied, NodeBuilder.applied_push]

/-- Closing a form and putting its arrow back may be exchanged. -/
theorem applied_close (f : OpenForm) {s : Span} (h : f.opening.start ≤ s.start) :
    (f.close s).applied ts = (f.applied ts).close s := by
  have hstart : (f.opening.join s).start = f.opening.start := Nat.min_eq_left h
  simp only [close, applied, NodeBuilder.applied_finish, hstart]

end OpenForm

/-- The place of the next expression where the arrow is a name: the domain and the codomains are
arguments like any other. -/
def Slot.applied : Slot → Slot
  | required .domain | required .codomain => more .arguments
  | more field => more field.applied
  | slot => slot

/-- The focus where the arrow is a name. -/
def Focus.applied : Focus → Focus
  | expression => expression
  | head opening => head opening
  | name f => name (f.applied ts)
  | parameters f => parameters (f.applied ts)
  | close f => close (f.applied ts)

/-- The open forms where the arrow is a name. -/
def appliedForms (forms : List (OpenForm × Slot)) : List (OpenForm × Slot) :=
  forms.map fun (f, slot) => (f.applied ts, slot.applied)

namespace Parser

/-- The parser where the arrow is a name. -/
def applied (p : Parser) : Parser where
  maxDepth := p.maxDepth
  root := p.root.applied ts 0
  tokens := p.tokens.map Token.demote
  enclosing := appliedForms ts p.enclosing
  focus := p.focus.applied ts

/-- As many parentheses are open where the arrow is a name. -/
theorem weight_appliedForms (forms : List (OpenForm × Slot)) :
    weight (appliedForms ts forms) = weight forms := by
  induction forms with
  | nil => rfl
  | cons entry forms ih =>
    obtain ⟨f, slot⟩ := entry
    show slot.applied.depth + weight (appliedForms ts forms) = _
    rw [ih, weight_cons]
    cases slot with
    | required field => cases field <;> rfl
    | _ => rfl

/-- As many parentheses are open. -/
theorem depth_applied (p : Parser) : (p.applied ts).depth = p.depth := by
  rw [depth_eq, depth_eq]
  show (p.focus.applied ts).openings.length + weight (appliedForms ts p.enclosing) = _
  rw [weight_appliedForms]
  cases p.focus <;> rfl

theorem mode_applied (p : Parser) : (p.applied ts).mode = p.mode := by
  obtain ⟨d, root, tokens, enclosing, focus⟩ := p
  cases focus with
  | head opening => cases enclosing <;> rfl
  | _ => rfl

theorem isIdle_applied (p : Parser) : (p.applied ts).isIdle = p.isIdle := by
  obtain ⟨d, root, tokens, enclosing, focus⟩ := p
  cases focus with
  | expression => cases enclosing <;> rfl
  | _ => rfl

/-- At the end of the input, both parsers give the same tree but for the arrows. -/
theorem tree_applied (p : Parser) (t : Token) :
    (p.applied p.tokens.toList).tree t = (p.tree t).applied := by
  simp only [tree, SyntaxTree.applied, NodeBuilder.applied_finish, applied, Array.toList_map]

variable {p q : Parser} {t : Token}

/-- A completed node goes to the same place where the arrow is a name. -/
theorem delivery_applied {n : Node} (h : Delivery p n q) :
    Delivery (p.applied ts) (n.applied ts) (q.applied ts) := by
  cases h with
  | form =>
    simp only [applied, NodeBuilder.applied_pushUnnamed]
    exact .form
  | domain | codomain | more =>
    simp only [applied, appliedForms, List.map_cons, OpenForm.applied_push]
    exact .more
  | @value d root tokens f field outer n hd hc =>
    simp only [applied, appliedForms, List.map_cons, Focus.applied, OpenForm.applied_push]
    cases field with
    | domain => exact absurd rfl hd
    | codomain => exact absurd rfl hc
    | _ => exact .value hd hc
  | function =>
    simp only [applied, appliedForms, List.map_cons, OpenForm.applied_push]
    exact .function
  | argument hn =>
    simp only [applied, appliedForms, List.map_cons, OpenForm.applied_push]
    exact .argument ((Node.kind_applied_eq_leaf_iff ts).2 hn)

/-- Only a function type begins with an arrow put back. -/
theorem applied_empty {kind : FormKind} (h : kind ≠ .functionType) (start : Nat) :
    (NodeBuilder.empty kind).applied ts start = .empty kind := by
  cases kind with
  | functionType => exact absurd rfl h
  | _ => simp [NodeBuilder.applied, NodeBuilder.empty, FormKind.front, FormKind.applied]

/-- **Steps.**  A parser that knows the keyword and one that does not go on alike, if the next token
stands behind the parentheses that are open and the arrow is the token right behind its own. -/
theorem step_applied (h : Step p t q) (hle : ∀ s ∈ p.openSpans, s.start ≤ t.span.start)
    (hfound : ∀ opening, p.focus = .head opening → t.kind = .keyword .arrow →
      ts.find? (fun u => opening.start < u.span.start) = some t) :
    Step (p.applied ts) t.demote (q.applied ts) := by
  induction h with
  | @leaf d root tokens enclosing t kind q ht hq =>
    have hleaf := delivery_applied ts hq
    have hk : t.demote.kind = t.kind := TokenKind.demote_of_ne fun h => by rw [h] at ht; cases ht
    simp only [applied, Array.map_push] at hleaf
    exact .leaf (by rw [hk]; exact ht) hleaf
  | opening ht =>
    simp only [applied, Array.map_push]
    exact .opening ((TokenKind.demote_eq_iff (by simp) (by simp)).2 ht)
  | @closing d root tokens f field outer t q ht hq =>
    have hclose := delivery_applied ts hq
    rw [OpenForm.applied_close ts f (hle _ List.mem_cons_self)] at hclose
    simp only [applied, Array.map_push] at hclose
    exact .closing ((TokenKind.demote_eq_iff (by simp) (by simp)).2 ht) hclose
  | closingArguments ht =>
    simp only [applied, Array.map_push]
    exact .closingArguments ((TokenKind.demote_eq_iff (by simp) (by simp)).2 ht)
  | @binding d root tokens enclosing opening t kind word ht hk hd =>
    rw [← depth_applied ts] at hd
    have hne : kind ≠ .functionType ∧ word ≠ .arrow := by cases hk <;> simp
    simp only [applied, Array.map_push, Focus.applied, OpenForm.applied, applied_empty ts hne.1]
    refine .binding ?_ hk hd
    exact (TokenKind.demote_eq_iff (by simp) (by simp [hne.2])).2 ht
  | lambda ht hd =>
    rw [← depth_applied ts] at hd
    simp only [applied, Array.map_push, Focus.applied, OpenForm.applied,
      applied_empty ts (show FormKind.lambda ≠ .functionType by simp)]
    exact .lambda ((TokenKind.demote_eq_iff (by simp) (by simp)).2 ht) hd
  | @arrow d root tokens enclosing opening t ht hd =>
    rw [← depth_applied ts] at hd
    have hk : t.demote.kind = .identifier := by rw [Token.demote, ht]; rfl
    -- The application begins with the arrow as its function.
    have hform : (⟨opening, .empty .functionType⟩ : OpenForm).applied ts =
        (⟨opening, .empty .application⟩ : OpenForm).push .function
          (.leaf .identifier t.demote.span t.demote.text) := by
      have hfirst := hfound opening rfl ht
      simp [OpenForm.applied, OpenForm.push, NodeBuilder.applied, NodeBuilder.empty,
        NodeBuilder.push, FormKind.front, FormKind.applied, arrowLeaf?, hfirst, Token.demote]
    simp only [applied, Array.map_push, appliedForms, List.map_cons, hform]
    refine .application (fun word => by rw [hk]; exact TokenKind.noConfusion) hd ?_
    exact .leaf (by rw [hk]; rfl) .function
  | @application d root tokens enclosing opening t q ht hd hq ih =>
    rw [← depth_applied ts] at hd
    have hk : t.demote.kind = t.kind := TokenKind.demote_of_ne (ht .arrow)
    have hinner := ih hle fun _ _ harrow => absurd harrow (ht .arrow)
    simp only [applied, appliedForms, List.map_cons, OpenForm.applied,
      applied_empty ts (show FormKind.application ≠ .functionType by simp)] at hinner
    exact .application (fun word => by rw [hk]; exact ht word) hd hinner
  | @name d root tokens enclosing f t ht =>
    have hk : t.demote.kind = .identifier := by
      rw [← ht]
      exact TokenKind.demote_of_ne (by rw [ht]; simp)
    have hfield : (Slot.required (valueField f.node.kind)).applied =
        .required (valueField (f.applied ts).node.kind) := by
      show _ = Slot.required (valueField f.node.kind.applied)
      cases f.node.kind <;> rfl
    simp only [applied, Array.map_push, appliedForms, List.map_cons, OpenForm.applied_push, hfield]
    exact .name hk
  | parameters ht hd =>
    rw [← depth_applied ts] at hd
    simp only [applied, Array.map_push, appliedForms, List.map_cons]
    exact .parameters ((TokenKind.demote_eq_iff (by simp) (by simp)).2 ht) hd
  | @close d root tokens enclosing f t q ht hq =>
    have hclose := delivery_applied ts hq
    rw [OpenForm.applied_close ts f (hle _ List.mem_cons_self)] at hclose
    simp only [applied, Array.map_push] at hclose
    exact .close ((TokenKind.demote_eq_iff (by simp) (by simp)).2 ht) hclose

/-! ## Refusals -/

/-- Where one node is turned away, so is every other that is no name. -/
theorem misfit_applied {n m : Node} {e : ParseError} (h : Misfit p n e)
    (hm : m.kind ≠ .leaf .identifier) : ∃ e', Misfit (p.applied ts) m e' := by
  cases h with
  | argument => exact ⟨_, .argument hm⟩

/-- A function type ends before its domain or its first codomain. -/
def EndsArrowEarly (p : Parser) (t : Token) (e : ParseError) : Prop :=
  t.kind = .rightParen ∧ ∃ f field outer, p.focus = .expression ∧
    p.enclosing = (f, .required field) :: outer ∧ (field = .domain ∨ field = .codomain) ∧
    e = .missingExpression f.production t.span

/-- Away from an arrow, a token that is refused is refused where the arrow is a name, unless it ends
a function type too early. -/
theorem refusal_applied_of_ne {e : ParseError} (h : Refusal p t e)
    (hne : t.kind ≠ .keyword .arrow) :
    (∃ e', Refusal (p.applied ts) t e') ∨ p.EndsArrowEarly t e := by
  have hdemote := Token.demote_of_ne hne
  induction h with
  | topLevel ht => exact Or.inl ⟨_, .topLevel ht⟩
  | @missing d root tokens f field outer t ht =>
    -- An application need not go on where a function type has to.
    by_cases hfield : field = .domain ∨ field = .codomain
    · exact Or.inr ⟨ht, f, field, outer, rfl, rfl, hfield, rfl⟩
    · have hslot : (Slot.required field).applied = .required field := by
        cases field <;> simp at hfield <;> rfl
      simp only [applied, appliedForms, List.map_cons, hslot]
      exact Or.inl ⟨_, .missing ht⟩
  | @unexpected d root tokens f slot outer t ht hs =>
    refine Or.inl ⟨_, .unexpected ht fun hk => ?_⟩
    rw [hs hk]
    rfl
  | @leaf d root tokens enclosing t kind e ht he =>
    obtain ⟨e', he'⟩ := misfit_applied ts (m := .leaf kind t.span t.text) he (by
      cases he with
      | argument hn => exact hn)
    simp only [applied, Array.map_push, hdemote] at he'
    exact Or.inl ⟨e', .leaf ht he'⟩
  | @closing d root tokens f field outer t e ht he =>
    obtain ⟨e', he'⟩ := misfit_applied ts (m := (f.applied ts).close t.span) he NodeKind.noConfusion
    simp only [applied, Array.map_push, hdemote] at he'
    exact Or.inl ⟨e', .closing ht he'⟩
  | deepForm hd =>
    rw [← depth_applied ts] at hd
    exact Or.inl ⟨_, .deepForm hd⟩
  | @application d root tokens enclosing opening t e ht hd he ih =>
    rw [← depth_applied ts] at hd
    rcases ih hne hdemote with ⟨e', he'⟩ | hearly
    · simp only [applied, appliedForms, List.map_cons, OpenForm.applied,
        applied_empty ts (show FormKind.application ≠ .functionType by simp)] at he'
      exact Or.inl ⟨e', .application ht hd he'⟩
    · obtain ⟨-, f, field, outer, -, henclosing, -⟩ := hearly
      cases henclosing
  | name ht => exact Or.inl ⟨_, .name ht⟩
  | parameters ht => exact Or.inl ⟨_, .parameters ht⟩
  | deepArguments ht hd =>
    rw [← depth_applied ts] at hd
    exact Or.inl ⟨_, .deepArguments ht hd⟩
  | extra ht => exact Or.inl ⟨_, .extra ht⟩
  | @closed d root tokens enclosing f t e ht he =>
    obtain ⟨e', he'⟩ := misfit_applied ts (m := (f.applied ts).close t.span) he NodeKind.noConfusion
    simp only [applied, Array.map_push, hdemote] at he'
    exact Or.inl ⟨e', .closed ht he'⟩
  | close hp ht => exact Or.inl ⟨_, .close hp ht⟩

/-- **Refusals.**  What a parser refuses that knows the keyword is refused by one that does not, but
for the end of a function type that is too short. -/
theorem refusal_applied {e : ParseError} (h : Refusal p t e)
    (hhead : t.kind = .keyword .arrow → ∃ opening, p.focus = .head opening) :
    (∃ e', Refusal (p.applied ts) t.demote e') ∨ p.EndsArrowEarly t e := by
  by_cases harrow : t.kind = .keyword .arrow
  · -- At a head the arrow is refused only if too many parentheses are open.
    obtain ⟨opening, hfocus⟩ := hhead harrow
    cases h with
    | deepForm hd =>
      rw [← depth_applied ts] at hd
      exact Or.inl ⟨_, .deepForm hd⟩
    | application ht => exact absurd harrow (ht .arrow)
    | _ => cases hfocus
  · rw [Token.demote_of_ne harrow]
    exact refusal_applied_of_ne ts h harrow

end Parser

end Applied

end PieSyntax
