/-
# What a parser holds

The children that a parser has read, at whatever depth: those of the root, of the open forms and of
everything below.  Main statements: a token adds at most one child to those that have been read
(`Parser.grows_of_step`), so that all of them are found in the tree (`Parser.Holds.mem_descendants`),
and the name of a function is read at a head (`Parser.ReadsFunction.exists_head`).
-/
import PieSyntax.Proofs.Reading

namespace PieSyntax

/-! ## Nodes -/

namespace Node

/-- The child `c` stands below `n`, with the field that it fills in its own parent. -/
def Holds (n : Node) (c : Option Field × Node) : Prop := ∃ m ∈ n.descendants, c ∈ m.labelled

variable {c : Option Field × Node}

/-- Nothing stands below a leaf. -/
theorem not_holds_leaf {kind : LeafKind} {s : Span} {text : List Char} :
    ¬ (leaf kind s text).Holds c := by
  rintro ⟨m, hm, hc⟩
  rcases mem_descendants_iff.1 hm with rfl | ⟨b, hb, -⟩
  · cases hc
  · cases hb

/-- What stands below a form is one of its children or stands below one. -/
theorem holds_form {kind : FormKind} {s : Span} {cs : List (Option Field × Node)} :
    (form kind s cs).Holds c ↔ ∃ b ∈ cs, c = b ∨ b.2.Holds c := by
  constructor
  · rintro ⟨m, hm, hc⟩
    rcases mem_descendants_iff.1 hm with rfl | ⟨n, hn, hm⟩
    · exact ⟨c, hc, Or.inl rfl⟩
    · obtain ⟨b, hb, rfl⟩ := List.mem_map.1 hn
      exact ⟨b, hb, Or.inr ⟨m, hm, hc⟩⟩
  · rintro ⟨b, hb, rfl | ⟨m, hm, hc⟩⟩
    · exact ⟨_, mem_descendants_iff.2 (Or.inl rfl), hb⟩
    · exact ⟨m, mem_descendants_iff.2 (Or.inr ⟨b.2, List.mem_map_of_mem hb, hm⟩), hc⟩

theorem mem_walk_of_mem {n : Node} {stack : List Node} (h : n ∈ stack) : n ∈ walk stack := by
  rw [walk_eq_flatMap]
  exact List.mem_flatMap.2 ⟨n, h, mem_descendants_iff.2 (Or.inl rfl)⟩

/-- A walk that meets a node meets its children. -/
theorem child_mem_walk {m n : Node} {stack : List Node} (hm : m ∈ walk stack)
    (hn : n ∈ m.children) : n ∈ walk stack := by
  fun_induction walk stack with
  | case1 => cases hm
  | case2 top stack ih =>
    rcases List.mem_cons.1 hm with rfl | hm
    · exact List.mem_cons_of_mem _ (mem_walk_of_mem (List.mem_append_left stack hn))
    · exact List.mem_cons_of_mem _ (ih hm)

/-- A child that stands below a node is among its descendants. -/
theorem Holds.mem_descendants {n : Node} (h : n.Holds c) : c.2 ∈ n.descendants := by
  obtain ⟨m, hm, hc⟩ := h
  exact child_mem_walk hm (List.mem_map_of_mem hc)

end Node

/-! ## Open forms -/

namespace NodeBuilder

/-- The child `c` has been read, in the form itself or below. -/
def Holds (b : NodeBuilder) (c : Option Field × Node) : Prop :=
  ∃ x ∈ b.children, c = x ∨ x.2.Holds c

variable {b : NodeBuilder} {c : Option Field × Node}

theorem not_holds_empty {kind : FormKind} : ¬ (empty kind).Holds c := by
  rintro ⟨x, hx, -⟩
  cases Array.not_mem_empty x hx

/-- A form with one more child holds that child and what stands below it, and nothing else that is
new. -/
theorem holds_push {field : Field} {n : Node} :
    (b.push field n).Holds c ↔ b.Holds c ∨ c = (some field, n) ∨ n.Holds c := by
  simp only [Holds, push, Array.mem_push, or_and_right, exists_or, exists_eq_left]

theorem holds_pushUnnamed {n : Node} :
    (b.pushUnnamed n).Holds c ↔ b.Holds c ∨ c = (none, n) ∨ n.Holds c := by
  simp only [Holds, pushUnnamed, Array.mem_push, or_and_right, exists_or, exists_eq_left]

theorem holds_finish {s : Span} : (b.finish s).Holds c ↔ b.Holds c := by
  rw [finish, Node.holds_form]
  simp only [Holds, Array.mem_toList_iff]

end NodeBuilder

/-- The child `c` has been read in the form that the focus holds open. -/
def Focus.Holds (c : Option Field × Node) : Focus → Prop
  | expression | head _ => False
  | name f | parameters f | close f => f.node.Holds c

/-- The field that the next expression fills. -/
def Slot.field : Slot → Field
  | required field | more field => field
  | function => .function
  | argument _ => .arguments

/-- No place but the first in an application is that of a function. -/
theorem Begun.eq_function {kind : FormKind} {slot : Slot} {parts : List Part} {ts : List Token}
    (h : Begun kind (.slot slot) parts ts) (hs : slot.field = .function) : slot = .function := by
  cases h with
  | value hk hw ht hf => cases hk <;> rw [← hf] at hs <;> cases hs
  | function => rfl
  | _ => cases hs

/-! ## Parsers -/

namespace Parser

/-- The child `c` has been read. -/
def Holds (p : Parser) (c : Option Field × Node) : Prop :=
  p.root.Holds c ∨ (∃ entry ∈ p.enclosing, entry.1.node.Holds c) ∨ p.focus.Holds c

/-- The field that the next completed node fills in its parent, if it has one. -/
def field? (p : Parser) : Option Field := p.enclosing.head?.map (·.2.field)

variable {p q : Parser} {t : Token} {c : Option Field × Node}

/-- A parser with no form open holds what its root holds. -/
theorem holds_of_isIdle (h : p.isIdle = true) : p.Holds c ↔ p.root.Holds c := by
  obtain ⟨d, root, tokens, enclosing, focus⟩ := p
  cases focus with
  | expression =>
    obtain rfl := List.isEmpty_iff.1 h
    simp [Holds, Focus.Holds]
  | _ => cases h

/-- A completed node is added with all that it holds. -/
theorem holds_of_delivery {n : Node} (h : Delivery p n q) :
    q.Holds c ↔ p.Holds c ∨ c = (p.field?, n) ∨ n.Holds c := by
  cases h with
  | form =>
    simp only [Holds, NodeBuilder.holds_pushUnnamed, field?, List.head?_nil, Option.map_none]
    tauto
  | _ =>
    simp only [Holds, Focus.Holds, OpenForm.push, NodeBuilder.holds_push, field?, Slot.field,
      List.head?_cons, Option.map_some, List.exists_mem_cons_iff, or_false]
    grind

/-- A name that `p` reads now becomes the function of an application. -/
def ReadsFunction (p : Parser) : Prop :=
  (∃ opening, p.focus = .head opening) ∨ p.focus = .expression ∧ p.field? = some .function

/-- What `p` and `q` hold is the same but for at most one child, which `q` has read as `t`: a form, or
the leaf of `t`, which becomes a function only where one is read. -/
inductive Grows (p : Parser) (t : Token) (q : Parser) : Prop
  | same (h : ∀ c, q.Holds c ↔ p.Holds c)
  | leaf {field kind} (ht : leafKind? t.kind = some kind)
      (hf : field = some .function → p.ReadsFunction)
      (h : ∀ c, q.Holds c ↔ p.Holds c ∨ c = (field, .leaf kind t.span t.text))
  | form {field : Option Field} {n} (hn : n.kind.isLeaf = false)
      (h : ∀ c, q.Holds c ↔ p.Holds c ∨ c = (field, n))

/-- The form closed by a token is added, and what it holds remains. -/
theorem grows_of_close {d : Nat} {root : NodeBuilder} {tokens : Array Token} {f : OpenForm}
    {outer : List (OpenForm × Slot)}
    (hp : ∀ c, p.Holds c ↔ Holds ⟨d, root, tokens, outer, .expression⟩ c ∨ f.node.Holds c)
    (hq : Delivery ⟨d, root, tokens, outer, .expression⟩ (f.close t.span) q) : Grows p t q := by
  have hmore : ∀ c, q.Holds c ↔ p.Holds c ∨ c = (field? ⟨d, root, tokens, outer, .expression⟩,
      f.close t.span) := by
    intro c
    rw [holds_of_delivery hq, hp, OpenForm.close, NodeBuilder.holds_finish]
    exact (or_right_comm.trans or_assoc).symm
  exact .form rfl hmore

/-- **Steps.**  A token adds at most one child to those that have been read. -/
theorem grows_of_step (h : Step p t q) : Grows p t q := by
  induction h with
  | @leaf d root tokens enclosing t kind q ht hq =>
    refine .leaf ht (fun hf => Or.inr ⟨rfl, hf⟩) fun c => ?_
    rw [holds_of_delivery hq]
    simp only [Node.not_holds_leaf, or_false]
    exact Iff.rfl
  | closing ht hq =>
    refine grows_of_close (fun c => ?_) hq
    simp only [Holds, Focus.Holds, List.exists_mem_cons_iff, or_false]
    grind
  | close ht hq =>
    refine grows_of_close (fun c => ?_) hq
    simp only [Holds, Focus.Holds, or_false, or_assoc]
  | @application d root tokens enclosing opening t q ht hd hq ih =>
    -- The application holds nothing yet, so that its step is that of its first token.
    have hsame : ∀ c, Holds ⟨d, root, tokens, (⟨opening, .empty .application⟩, .function) ::
        enclosing, .expression⟩ c ↔ Holds ⟨d, root, tokens, enclosing, .head opening⟩ c := by
      intro c
      simp only [Holds, Focus.Holds, List.exists_mem_cons_iff, NodeBuilder.not_holds_empty,
        false_or]
    cases ih with
    | same h => exact .same fun c => (h c).trans (hsame c)
    | leaf ht hf h =>
      exact .leaf ht (fun _ => Or.inl ⟨opening, rfl⟩) fun c => by rw [h, hsame]
    | form hn h => exact .form hn fun c => by rw [h, hsame]
  | @name d root tokens enclosing f t ht =>
    have hleaf : leafKind? t.kind = some .identifier := by rw [ht]; rfl
    refine .leaf hleaf (fun hf => absurd hf (show some Field.identifier ≠ _ by simp)) fun c => ?_
    simp only [Holds, Focus.Holds, OpenForm.push, NodeBuilder.holds_push, Node.not_holds_leaf,
      List.exists_mem_cons_iff, or_false]
    grind
  | parameters =>
    refine .same fun c => ?_
    simp only [Holds, Focus.Holds, List.exists_mem_cons_iff, or_false]
    exact or_congr_right or_comm
  | _ =>
    refine .same fun c => ?_
    simp only [Holds, Focus.Holds, List.exists_mem_cons_iff, NodeBuilder.not_holds_empty, or_false,
      false_or]

/-- What has been read is never lost. -/
theorem Holds.of_step (h : Step p t q) (hc : p.Holds c) : q.Holds c := by
  cases grows_of_step h with
  | same hq => exact (hq c).2 hc
  | leaf _ _ hq | form _ hq => exact (hq c).2 (Or.inl hc)

/-- What has been read stays, whatever tokens follow. -/
theorem Holds.of_readAll {ts : List Token} (hq : p.readAll ts = .ok q) (hc : p.Holds c) :
    q.Holds c :=
  readAll_keeps (I := fun r => r.Holds c) hq hc fun hr hstep => hr.of_step hstep

/-- What has been read is found in the tree. -/
theorem Holds.mem_descendants {lx : Lexer} {tree : SyntaxTree} (hc : p.Holds c)
    (h : p.run lx = .ok tree) : c.2 ∈ tree.root.descendants := by
  obtain ⟨ts, q, last, -, hq, hend⟩ := p.run_ending lx
  rw [h] at hend
  cases hend with
  | finished ht hidle hk =>
    have hroot := (holds_of_isIdle hidle).1 (hc.of_readAll hq)
    exact Node.Holds.mem_descendants (NodeBuilder.holds_finish.2 hroot)

/-- A form that may be closed is found in the tree once the next token has closed it. -/
theorem close_mem_descendants {lx last : Lexer} {tree : SyntaxTree} {f : OpenForm} {field : Field}
    {outer : List (OpenForm × Slot)} (hfocus : p.focus = .expression)
    (henclosing : p.enclosing = (f, .more field) :: outer)
    (ht : lx.next p.mode = (.ok t, last)) (hk : t.kind = .rightParen) (h : p.run lx = .ok tree) :
    f.close t.span ∈ tree.root.descendants := by
  have hne : t.kind ≠ .endOfInput := by rw [hk]; simp
  rcases read_cases p t with ⟨q, hq, hstep⟩ | ⟨e, he, -⟩
  · rw [run_of_read ht hne hq] at h
    obtain ⟨d, root, tokens, enclosing, focus⟩ := p
    obtain rfl := hfocus
    obtain rfl := henclosing
    cases hstep with
    | leaf hleaf =>
      rw [hk] at hleaf
      cases hleaf
    | opening hopening =>
      rw [hk] at hopening
      cases hopening
    | closing hclosing hdelivery =>
      have hclosed := (holds_of_delivery hdelivery).2 (Or.inr (Or.inl rfl))
      exact hclosed.mem_descendants h
  · rw [run_of_ending (.refused ht he fun _ => hne)] at h
    cases h

/-! ## Where functions are read -/

/-- A parser that has put a node in its place does not wait for a function. -/
theorem ne_function_of_delivery {n : Node} (h : Delivery p n q) (hq : q.focus = .expression)
    {f : OpenForm} {outer : List (OpenForm × Slot)} : q.enclosing ≠ (f, .function) :: outer := by
  cases h with
  | value => cases hq
  | _ => simp

/-- The token that opens an application begins its function too, which is never waited for. -/
theorem ne_function_of_step (h : Step p t q) (hq : q.focus = .expression) {f : OpenForm}
    {outer : List (OpenForm × Slot)} : q.enclosing ≠ (f, .function) :: outer := by
  induction h with
  | leaf ht hd | closing ht hd | close ht hd => exact ne_function_of_delivery hd hq
  | application ht hd hstep ih => exact ih hq
  | opening | binding | lambda => cases hq
  | _ => simp

/-- The name of a function stands right behind a parenthesis. -/
theorem ReadsFunction.exists_head {maxDepth : Nat} {lx last : Lexer} {ts : List Token}
    (hts : Lexer.Scan .initial lx ts last) (hp : (initial maxDepth).readAll ts = .ok p)
    (h : p.ReadsFunction) : ∃ opening, p.focus = .head opening := by
  rcases h with hhead | ⟨hfocus, hfield⟩
  · exact hhead
  · exfalso
    obtain ⟨entry, hentry, hslot⟩ := Option.map_eq_some_iff.1 hfield
    obtain ⟨outer, henclosing⟩ := List.head?_eq_some_iff.1 hentry
    obtain ⟨us, vs, henc, -⟩ := accounts_of_scan hts hp
    rw [henclosing] at henc
    generalize p.root = root at henc
    have hfunction : entry.2 = .function := by
      cases henc with
      | form _ hread =>
        cases hread with
        | intro _ _ _ hbegun => exact hbegun.eq_function hslot
    rcases List.eq_nil_or_concat ts with rfl | ⟨before, t, rfl⟩
    · cases hp
      cases henclosing
    · rw [List.concat_eq_append] at hp
      obtain ⟨r, -, hstep⟩ := exists_step_of_readAll_concat hp
      have hplace : p.enclosing = (entry.1, .function) :: outer := by
        rw [henclosing, ← hfunction]
      exact ne_function_of_step hstep hfocus hplace

end Parser

end PieSyntax
