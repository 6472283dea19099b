/-
# Where tokens stand

A parser looks at the classes and the texts of tokens.  Where they stand goes into the tree and into
errors, but decides nothing.  Main statements: a step is the same step wherever its token stands
(`Parser.step_relocate`), so is a refusal (`Parser.refusal_relocate`), and so is reading many tokens
(`Parser.readAll_relocate`).
-/
import Mathlib.Data.List.Forall2
import PieSyntax.Proofs.Scan
import PieSyntax.Node.Sexp

namespace PieSyntax

/-! ## Relocations -/

/-- A map of places that respects joins. -/
structure Relocation where
  place : Span → Span
  place_join : ∀ s t, place (s.join t) = (place s).join (place t)

namespace Relocation

/-- Everything stands `n` bytes further on. -/
def shift (n : Nat) : Relocation where
  place s := s.shift n
  place_join s t := by simp [Span.join, Span.shift]

/-- All places are forgotten. -/
def nowhere : Relocation where
  place _ := .point 0
  place_join _ _ := rfl

end Relocation

section Relocate

variable (r : Relocation)

namespace Node

mutual

/-- The node with its places changed. -/
def relocate : Node → Node
  | leaf kind s text => leaf kind (r.place s) text
  | form kind s children => form kind (r.place s) (relocateAll children)

/-- The children with their places changed. -/
def relocateAll : List (Option Field × Node) → List (Option Field × Node)
  | [] => []
  | (field, n) :: rest => (field, n.relocate) :: relocateAll rest

end

/-- The child with its places changed. -/
def relocateChild (c : Option Field × Node) : Option Field × Node := (c.1, c.2.relocate r)

/-- The mutual recursion moves the children one by one. -/
theorem relocateAll_eq_map (cs : List (Option Field × Node)) :
    relocateAll r cs = cs.map (relocateChild r) := by
  induction cs with
  | nil => rfl
  | cons c cs ih =>
    obtain ⟨field, n⟩ := c
    rw [relocateAll, ih]
    rfl

@[simp] theorem kind_relocate (n : Node) : (n.relocate r).kind = n.kind := by
  cases n <;> rfl

@[simp] theorem span_relocate (n : Node) : (n.relocate r).span = r.place n.span := by
  cases n <;> rfl

/-- The labels are kept, and every child is moved. -/
theorem labelled_relocate (n : Node) :
    (n.relocate r).labelled = n.labelled.map (relocateChild r) := by
  cases n with
  | leaf => rfl
  | form => exact relocateAll_eq_map r _

mutual

/-- An S-expression holds no places. -/
theorem sexp_relocate (n : Node) : (n.relocate r).sexp = n.sexp := by
  cases n with
  | leaf => rfl
  | form kind s cs => rw [relocate, sexp, sexp, sexpAll_relocateAll cs]

/-- The S-expressions of moved children are those of the children. -/
theorem sexpAll_relocateAll (cs : List (Option Field × Node)) :
    sexpAll (relocateAll r cs) = sexpAll cs := by
  cases cs with
  | nil => rfl
  | cons c rest =>
    obtain ⟨field, n⟩ := c
    rw [relocateAll, sexpAll, sexpAll, sexp_relocate n, sexpAll_relocateAll rest]

end

end Node

/-- The form under construction with the places of its children changed. -/
def NodeBuilder.relocate (b : NodeBuilder) : NodeBuilder :=
  { b with children := b.children.map (Node.relocateChild r) }

theorem NodeBuilder.relocate_empty (kind : FormKind) :
    (NodeBuilder.empty kind).relocate r = .empty kind := by
  simp only [relocate, empty, Array.map_empty]

/-- A moved child joins the moved form. -/
theorem NodeBuilder.relocate_push (b : NodeBuilder) (field : Field) (n : Node) :
    (b.push field n).relocate r = (b.relocate r).push field (n.relocate r) := by
  simp only [push, relocate, Array.map_push]
  rfl

/-- A moved form is completed at the moved span. -/
theorem NodeBuilder.relocate_finish (b : NodeBuilder) (s : Span) :
    (b.finish s).relocate r = (b.relocate r).finish (r.place s) := by
  simp only [finish, relocate, Node.relocate, Node.relocateAll_eq_map, Array.toList_map]

namespace OpenForm

/-- The open form with its places changed. -/
def relocate (f : OpenForm) : OpenForm := ⟨r.place f.opening, f.node.relocate r⟩

theorem relocate_empty (opening : Span) (kind : FormKind) :
    relocate r ⟨opening, .empty kind⟩ = ⟨r.place opening, .empty kind⟩ := by
  simp only [relocate, NodeBuilder.relocate_empty]

theorem relocate_push (f : OpenForm) (field : Field) (n : Node) :
    (f.push field n).relocate r = (f.relocate r).push field (n.relocate r) := by
  simp only [push, relocate, NodeBuilder.relocate_push]

theorem relocate_close (f : OpenForm) (s : Span) :
    (f.close s).relocate r = (f.relocate r).close (r.place s) := by
  simp only [close, relocate, NodeBuilder.relocate_finish, r.place_join]

end OpenForm

/-- The place of the next expression, with the parenthesis it holds moved. -/
def Slot.relocate : Slot → Slot
  | argument opening => argument (r.place opening)
  | slot => slot

/-- The focus with its places changed. -/
def Focus.relocate : Focus → Focus
  | expression => expression
  | head opening => head (r.place opening)
  | name f => name (f.relocate r)
  | parameters f => parameters (f.relocate r)
  | close f => close (f.relocate r)

/-- The open forms with their places changed. -/
def relocateForms (forms : List (OpenForm × Slot)) : List (OpenForm × Slot) :=
  forms.map fun (f, slot) => (f.relocate r, slot.relocate r)

/-- The error at its new place. -/
def LexError.relocate : LexError → LexError
  | unrecognizedCharacter c s => unrecognizedCharacter c (r.place s)
  | incompleteAtom s => incompleteAtom (r.place s)

/-- The error at its new place. -/
def ParseError.relocate : ParseError → ParseError
  | unexpectedToken found expected context s => unexpectedToken found expected context (r.place s)
  | missingCloseParen context expected opening s =>
    missingCloseParen context expected (r.place opening) (r.place s)
  | extraExpression context s => extraExpression context (r.place s)
  | missingExpression context s => missingExpression context (r.place s)
  | nonIdentifierArgument found s => nonIdentifierArgument found (r.place s)
  | depthExceeded limit s => depthExceeded limit (r.place s)

/-- The error at its new place. -/
def SyntaxError.relocate : SyntaxError → SyntaxError
  | lexical e => lexical (e.relocate r)
  | grammatical e => grammatical (e.relocate r)

/-- `t.Relocated r u`: the token `u` is `t` at its new place, with any trivia before it; a keyword may
be spelled in another way. -/
structure Token.Relocated (t u : Token) : Prop where
  kind_eq : u.kind = t.kind
  span_eq : u.span = r.place t.span
  text_eq : (∀ word, t.kind ≠ .keyword word) → u.text = t.text

/-- The token at its new place. -/
def Token.relocate (t : Token) : Token := { t with span := r.place t.span }

theorem Token.relocated_relocate (t : Token) : t.Relocated r (t.relocate r) :=
  ⟨rfl, rfl, fun _ => rfl⟩

variable {r} in
/-- Moving tokens keeps their classes. -/
theorem kinds_relocated {ts us : List Token} (h : List.Forall₂ (Token.Relocated r) ts us) :
    us.map Token.kind = ts.map Token.kind := by
  induction h with
  | nil => rfl
  | cons htu _ ih => rw [List.map_cons, List.map_cons, htu.kind_eq, ih]

namespace Parser

variable (front : Array (Option Field × Node)) (ts : Array Token)

/-- The parser with its places changed, when `front` has been completed before its own forms and `ts`
are the tokens read. -/
def relocate (p : Parser) : Parser where
  maxDepth := p.maxDepth
  root := { p.root with children := front ++ p.root.children.map (Node.relocateChild r) }
  tokens := ts
  enclosing := relocateForms r p.enclosing
  focus := p.focus.relocate r

/-! ## Steps -/

variable {r} {p q : Parser} {t u : Token}

/-- A completed node that is moved goes to the same place in the moved parser. -/
theorem delivery_relocate {n : Node} (h : Delivery p n q) :
    Delivery (p.relocate r front ts) (n.relocate r) (q.relocate r front ts) := by
  cases h with
  | form =>
    simp only [relocate, NodeBuilder.pushUnnamed, Array.map_push, Array.append_push]
    exact .form
  | domain =>
    simp only [relocate, relocateForms, List.map_cons, OpenForm.relocate_push]
    exact .domain
  | codomain =>
    simp only [relocate, relocateForms, List.map_cons, OpenForm.relocate_push]
    exact .codomain
  | value hd hc =>
    simp only [relocate, relocateForms, List.map_cons, Focus.relocate, OpenForm.relocate_push]
    exact .value hd hc
  | function =>
    simp only [relocate, relocateForms, List.map_cons, OpenForm.relocate_push]
    exact .function
  | more =>
    simp only [relocate, relocateForms, List.map_cons, OpenForm.relocate_push]
    exact .more
  | argument hn =>
    simp only [relocate, relocateForms, List.map_cons, OpenForm.relocate_push]
    exact .argument (by rw [Node.kind_relocate]; exact hn)

/-- Moving open forms keeps the count of their parentheses. -/
theorem weight_relocateForms (forms : List (OpenForm × Slot)) :
    weight (relocateForms r forms) = weight forms := by
  induction forms with
  | nil => rfl
  | cons entry forms ih =>
    obtain ⟨f, slot⟩ := entry
    show (slot.relocate r).depth + weight (relocateForms r forms) = _
    rw [ih, weight_cons]
    cases slot <;> rfl

/-- As many parentheses are open. -/
theorem depth_relocate (p : Parser) : (p.relocate r front ts).depth = p.depth := by
  rw [depth_eq, depth_eq]
  show (p.focus.relocate r).openings.length + weight (relocateForms r p.enclosing) = _
  rw [weight_relocateForms]
  cases p.focus <;> rfl

/-- **Steps.**  A step is the same step wherever its token stands. -/
theorem step_relocate (h : Step p t q) (hu : t.Relocated r u) :
    Step (p.relocate r front ts) u (q.relocate r front (ts.push u)) := by
  induction h with
  | @leaf d root tokens enclosing t kind q ht hq =>
    -- Only a keyword may be spelled otherwise where it is moved to, and a leaf is none.
    have htext := hu.text_eq fun word hk => by rw [hk] at ht; cases ht
    have hleaf := delivery_relocate front (ts.push u) (r := r) hq
    rw [Node.relocate, ← hu.span_eq, ← htext] at hleaf
    exact .leaf (by rw [hu.kind_eq]; exact ht) hleaf
  | opening ht =>
    simp only [relocate, Focus.relocate, ← hu.span_eq]
    exact .opening (hu.kind_eq.trans ht)
  | closing ht hq =>
    have hclose := delivery_relocate front (ts.push u) (r := r) hq
    rw [OpenForm.relocate_close, ← hu.span_eq] at hclose
    exact .closing (hu.kind_eq.trans ht) hclose
  | closingArguments ht => exact .closingArguments (hu.kind_eq.trans ht)
  | binding ht hk hd =>
    rw [← depth_relocate (r := r) front ts] at hd
    simp only [relocate, Focus.relocate, OpenForm.relocate_empty]
    exact .binding (hu.kind_eq.trans ht) hk hd
  | lambda ht hd =>
    rw [← depth_relocate (r := r) front ts] at hd
    simp only [relocate, Focus.relocate, OpenForm.relocate_empty]
    exact .lambda (hu.kind_eq.trans ht) hd
  | arrow ht hd =>
    rw [← depth_relocate (r := r) front ts] at hd
    simp only [relocate, relocateForms, List.map_cons, OpenForm.relocate_empty]
    exact .arrow (hu.kind_eq.trans ht) hd
  | application ht hd hq ih =>
    rw [← depth_relocate (r := r) front ts] at hd
    have hinner := ih hu
    simp only [relocate, relocateForms, List.map_cons, OpenForm.relocate_empty] at hinner
    exact .application (fun word => by rw [hu.kind_eq]; exact ht word) hd hinner
  | @name d root tokens enclosing f t ht =>
    have htext := hu.text_eq fun word => by rw [ht]; exact TokenKind.noConfusion
    simp only [relocate, relocateForms, List.map_cons, OpenForm.relocate_push, Node.relocate,
      ← hu.span_eq, ← htext]
    exact .name (hu.kind_eq.trans ht)
  | parameters ht hd =>
    rw [← depth_relocate (r := r) front ts] at hd
    simp only [relocate, relocateForms, List.map_cons, Focus.relocate, Slot.relocate, ← hu.span_eq]
    exact .parameters (hu.kind_eq.trans ht) hd
  | close ht hq =>
    have hclose := delivery_relocate front (ts.push u) (r := r) hq
    rw [OpenForm.relocate_close, ← hu.span_eq] at hclose
    exact .close (hu.kind_eq.trans ht) hclose

/-- The next token is lexed in the same mode. -/
theorem mode_relocate (p : Parser) : (p.relocate r front ts).mode = p.mode := by
  obtain ⟨d, root, tokens, enclosing, focus⟩ := p
  cases enclosing <;> cases focus <;> rfl

theorem isIdle_relocate (p : Parser) : (p.relocate r front ts).isIdle = p.isIdle := by
  obtain ⟨d, root, tokens, enclosing, focus⟩ := p
  cases enclosing <;> cases focus <;> rfl

/-- Reading many tokens is the same wherever they stand. -/
theorem readAll_relocate {us vs : List Token} (h : p.readAll us = .ok q)
    (hvs : List.Forall₂ (Token.Relocated r) us vs) :
    (p.relocate r front ts).readAll vs = .ok (q.relocate r front (ts ++ vs.toArray)) := by
  induction hvs generalizing p ts with
  | nil =>
    cases h
    rw [readAll_nil, Array.append_empty]
  | @cons t u us vs hu _ ih =>
    obtain ⟨m, hm, hq⟩ := exists_read_of_readAll_cons h
    have hstep := read_of_step (step_relocate front ts (step_of_read hm) hu)
    have htokens : ts ++ (u :: vs).toArray = ts.push u ++ vs.toArray := by
      apply Array.ext'
      simp
    rw [readAll_cons, hstep, htokens]
    exact ih (ts.push u) hq

/-! ## Refusals -/

/-- The parentheses that are open are moved, and their productions are kept. -/
theorem openings_relocate (p : Parser) :
    (p.relocate r front ts).openings = p.openings.map fun x => (x.1, r.place x.2) := by
  have hfocus : (p.focus.relocate r).openings =
      p.focus.openings.map fun x => (x.1, r.place x.2) := by
    cases p.focus <;> rfl
  have hslot : ∀ (f : OpenForm) (slot : Slot), (slot.relocate r).openings (f.relocate r) =
      (slot.openings f).map fun x => (x.1, r.place x.2) := by
    intro f slot
    cases slot <;> rfl
  show (p.focus.relocate r).openings ++ (relocateForms r p.enclosing).flatMap _ = _
  rw [openings, hfocus, List.map_append, relocateForms, List.flatMap_map, List.map_flatMap]
  simp only [hslot]

/-- What is said of an unexpected token is said of the moved one, about the moved places. -/
theorem reject_relocate (hu : t.Relocated r u) (htext : u.text = t.text)
    (expected : List Expected) (context : Production) :
    (p.relocate r front ts).reject u expected context =
      (p.reject t expected context).relocate r := by
  rw [reject, reject, openings_relocate, Token.isEnd, Token.isEnd, hu.kind_eq, hu.span_eq, htext]
  split
  · cases p.openings <;> rfl
  · rfl

/-- A node that is turned away is turned away when it is moved, for the moved reason. -/
theorem misfit_relocate {n : Node} {e : ParseError} (h : Misfit p n e) :
    Misfit (p.relocate r front ts) (n.relocate r) (e.relocate r) := by
  cases h with
  | argument hn =>
    rw [ParseError.relocate, ← Node.kind_relocate r, ← Node.span_relocate]
    exact .argument (by rw [Node.kind_relocate]; exact hn)

/-- **Refusals.**  A refusal is the same refusal wherever its token stands. -/
theorem refusal_relocate {e : ParseError} (h : Refusal p t e) (hu : t.Relocated r u)
    (htext : u.text = t.text) : Refusal (p.relocate r front ts) u (e.relocate r) := by
  induction h with
  | topLevel ht =>
    rw [← reject_relocate front ts hu htext]
    exact .topLevel (by rw [hu.kind_eq]; exact ht)
  | missing ht =>
    rw [ParseError.relocate, ← hu.span_eq]
    exact .missing (hu.kind_eq.trans ht)
  | @unexpected d root tokens f slot outer t ht hs =>
    rw [← reject_relocate front ts hu htext]
    have hexpected : slot.expected = (slot.relocate r).expected := by cases slot <;> rfl
    have hcontext : slot.context f = (slot.relocate r).context (f.relocate r) := by
      cases slot <;> rfl
    rw [hexpected, hcontext]
    refine .unexpected (by rw [hu.kind_eq]; exact ht) fun hk => ?_
    rw [hs (hu.kind_eq.symm.trans hk)]
    rfl
  | leaf ht he =>
    have hleaf := misfit_relocate front (ts.push u) (r := r) he
    have hword := hu.text_eq fun word hk => by rw [hk] at ht; cases ht
    rw [Node.relocate, ← hu.span_eq, ← hword] at hleaf
    exact .leaf (by rw [hu.kind_eq]; exact ht) hleaf
  | closing ht he =>
    have hclose := misfit_relocate front (ts.push u) (r := r) he
    rw [OpenForm.relocate_close, ← hu.span_eq] at hclose
    exact .closing (hu.kind_eq.trans ht) hclose
  | deepForm hd =>
    rw [← depth_relocate (r := r) front ts] at hd
    exact .deepForm hd
  | application ht hd he ih =>
    rw [← depth_relocate (r := r) front ts] at hd
    have hinner := ih hu htext
    simp only [relocate, relocateForms, List.map_cons, OpenForm.relocate_empty] at hinner
    exact .application (fun word => by rw [hu.kind_eq]; exact ht word) hd hinner
  | name ht =>
    rw [← reject_relocate front ts hu htext]
    exact .name (by rw [hu.kind_eq]; exact ht)
  | parameters ht =>
    rw [← reject_relocate front ts hu htext]
    exact .parameters (by rw [hu.kind_eq]; exact ht)
  | deepArguments ht hd =>
    rw [← depth_relocate (r := r) front ts] at hd
    rw [ParseError.relocate, ← hu.span_eq]
    exact .deepArguments (hu.kind_eq.trans ht) hd
  | extra ht =>
    rw [ParseError.relocate, ← hu.span_eq]
    exact .extra (by rw [hu.kind_eq]; exact ht)
  | closed ht he =>
    have hclose := misfit_relocate front (ts.push u) (r := r) he
    rw [OpenForm.relocate_close, ← hu.span_eq] at hclose
    exact .closed (hu.kind_eq.trans ht) hclose
  | close hp ht =>
    rw [← reject_relocate front ts hu htext]
    exact .close (by rw [hu.kind_eq]; exact hp) (by rw [hu.kind_eq]; exact ht)

end Parser

end Relocate

end PieSyntax
