/-
# The schema of trees

Which nodes stand below which, and which fields they fill.  `FormKind.Labels` lists the fields of a
form child by child, `FormKind.Takes` says which nodes a field takes, and `Node.Viewed` that the typed
view of a form is there and holds every child.  All three are read off the layout of a form
(`Layout.labels`, `Layout.takes`, `Layout.viewed`).  Main statement: every tree that is parsed follows
the schema (`parse_follows_schema`).
-/
import PieSyntax.Proofs.FunctionTypes
import PieSyntax.Node.View

namespace PieSyntax

/-! ## The schema -/

/-- `kind.Labels fields`: the children of a form of this kind fill `fields`, in this order. -/
inductive FormKind.Labels : FormKind → List Field → Prop
  | claim : Labels .claim [.identifier, .type]
  | define : Labels .define [.identifier, .body]
  | lambda (n : Nat) : Labels .lambda (List.replicate n .arguments ++ [.body])
  | application (n : Nat) : Labels .application (.function :: List.replicate n .arguments)
  | functionType (n : Nat) :
      Labels .functionType (.domain :: List.replicate (n + 1) .codomain)

/-- `kind.Takes field child`: in a form of this kind, a child of kind `child` may fill `field`.  What
is bound is a name, and everything else is an expression. -/
def FormKind.Takes : FormKind → Field → NodeKind → Prop
  | _, .identifier, child | .lambda, .arguments, child => child = .leaf .identifier
  | _, _, child => child.isExpression = true

/-- The typed view of a form of the given kind is there and holds all of its children, and there is a
text for each name. -/
def Node.Viewed (n : Node) : FormKind → Prop
  | .source => True
  | .claim => ∃ c, n.claim? = some c ∧ n.children = [c.identifier, c.type] ∧
      c.identifier.text? = some c.name
  | .define => ∃ d, n.define? = some d ∧ n.children = [d.identifier, d.body] ∧
      d.identifier.text? = some d.name
  | .lambda => ∃ l, n.lambda? = some l ∧ n.children = l.arguments ++ [l.body] ∧
      l.arguments.map Node.text? = l.argumentNames.map some
  | .application => ∃ a, n.application? = some a ∧ n.children = a.function :: a.arguments
  | .functionType => ∃ f, n.functionType? = some f ∧ n.children = f.domain :: f.codomain ∧
      f.codomain ≠ []

/-- The nodes below the root. -/
def SyntaxTree.below (tree : SyntaxTree) : List Node := tree.forms.flatMap Node.descendants

/-- What the nodes of a tree are, when function types are read in the given way. -/
structure SyntaxTree.FollowsSchema (tree : SyntaxTree) (functionTypes : FunctionTypes) : Prop where
  root : tree.root.kind = .form .source
  /-- What stands at top level fills no field. -/
  top : tree.root.fields = []
  /-- The source is the root alone. -/
  source : ∀ n ∈ tree.below, n.kind ≠ .form .source
  /-- Claims and definitions stand at top level alone. -/
  expressions : ∀ n ∈ tree.below, ∀ c ∈ n.children, c.kind.isExpression = true
  /-- Below the root each child fills one field. -/
  labels : ∀ n ∈ tree.below, ∀ kind, n.kind = .form kind → ∃ fields, kind.Labels fields ∧
    fields.length = n.children.length ∧ n.fields = fields.zipIdx
  takes : ∀ n ∈ tree.below, ∀ kind, n.kind = .form kind →
    ∀ field, ∀ c ∈ n.fieldsOf field, kind.Takes field c.kind
  arrows : ∀ n ∈ tree.below, n.kind = .form .functionType → functionTypes = .production
  /-- Leaves hold a text and no children, and forms hold no text. -/
  texts : ∀ n ∈ tree.root.descendants,
    n.text?.isSome = n.kind.isLeaf ∧ (n.kind.isLeaf = true → n.children = [])
  views : ∀ n ∈ tree.below, ∀ kind, n.kind = .form kind → n.Viewed kind

/-- A tree consists of its root and of what is below. -/
theorem SyntaxTree.descendants_root (tree : SyntaxTree) :
    tree.root.descendants = tree.root :: tree.below := by
  rw [Node.descendants, Node.walk, List.append_nil, Node.walk_eq_flatMap]
  rfl

/-! ## Fields -/

theorem label_child (parts : List Part) :
    (parts.map Part.child).map (·.1) = parts.map Part.label := by
  rw [List.map_map]
  rfl

/-- If every child fills a field, all of them are listed with their places. -/
theorem filterMap_zipIdx_of_labels {children : List (Option Field × Node)} {fields : List Field}
    (h : children.map (·.1) = fields.map some) (k : Nat) :
    (children.zipIdx k).filterMap (fun (child, index) => child.1.map (·, index)) =
      fields.zipIdx k := by
  induction children generalizing fields k with
  | nil =>
    obtain rfl : fields = [] := List.map_eq_nil_iff.1 h.symm
    rfl
  | cons c children ih =>
    obtain ⟨field, rest, rfl, hfield, hrest⟩ := List.map_eq_cons_iff.1 h.symm
    have hlabel : c.1 = some field := hfield.symm
    simp only [List.zipIdx_cons, List.filterMap_cons, hlabel, Option.map_some, ih hrest.symm]

/-- If no child fills a field, none is listed. -/
theorem fields_of_unlabelled {n : Node} (h : ∀ c ∈ n.labelled, c.1 = none) : n.fields = [] := by
  refine List.filterMap_eq_nil_iff.2 ?_
  rintro ⟨c, index⟩ hmem
  have hlabel := h c (List.fst_mem_of_mem_zipIdx hmem)
  simp only [hlabel, Option.map_none]

theorem fieldsOf_form (kind : FormKind) (span : Span) (parts : List Part) (field : Field) :
    (Node.form kind span (parts.map Part.child)).fieldsOf field =
      (parts.filter fun x => x.label = some field).map Part.node := by
  rw [Node.fieldsOf, Node.labelled, List.filterMap_map, ← List.filterMap_eq_map,
    ← List.filterMap_eq_filter, List.filterMap_filterMap]
  congr 1
  funext x
  by_cases h : x.label = some field <;> simp [Part.child, h, Option.guard]

/-- Parts that fill another field are not among those of `field`. -/
theorem filter_label_eq_nil {parts : List Part} {field other : Field}
    (h : ∀ x ∈ parts, x.label = some other) (hne : other ≠ field) :
    parts.filter (fun x => x.label = some field) = [] := by
  refine List.filter_eq_nil_iff.2 fun x hx => ?_
  rw [h x hx]
  simpa using hne

theorem filter_label_eq_self {parts : List Part} {field : Field}
    (h : ∀ x ∈ parts, x.label = some field) :
    parts.filter (fun x => x.label = some field) = parts :=
  List.filter_eq_self.2 fun x hx => by simp [h x hx]

/-! ## What a layout says -/

section Layout

variable {kind : FormKind} {parts : List Part} {inside : List Token}

/-- Parts that fill one field have as many labels. -/
theorem map_label_eq_replicate {field : Field} (h : ∀ x ∈ parts, x.label = some field) :
    parts.map Part.label = (List.replicate parts.length field).map some := by
  rw [List.map_replicate]
  exact List.map_eq_replicate_iff.2 h

theorem label_names (field : Field) (names : List Token) :
    ∀ x ∈ names.map (Part.name field), x.label = some field := by
  intro x hx
  obtain ⟨t, -, rfl⟩ := List.mem_map.1 hx
  rfl

/-- **Labels.**  The children of a form fill its fields in order. -/
theorem Layout.labels (h : Layout kind parts inside) :
    ∃ fields, kind.Labels fields ∧ parts.map Part.label = fields.map some := by
  cases h with
  | @binding kind word kw t value hk hw ht hv =>
    cases hk with
    | claim =>
      refine ⟨_, .claim, ?_⟩
      simp [hv, Part.name, Parser.valueField]
    | define =>
      refine ⟨_, .define, ?_⟩
      simp [hv, Part.name, Parser.valueField]
  | @lambda kw opening names closing body hw ho hn hc hb =>
    refine ⟨_, .lambda names.length, ?_⟩
    have hnames := map_label_eq_replicate (label_names .arguments names)
    rw [List.length_map] at hnames
    rw [List.map_append, List.map_append, hnames, List.map_singleton, hb]
    rfl
  | @functionType kw domain codomains hw hd hne hc =>
    obtain ⟨n, hlength⟩ := Nat.exists_eq_add_one_of_ne_zero
      (fun h => hne (List.length_eq_zero_iff.1 h))
    refine ⟨_, .functionType n, ?_⟩
    rw [List.map_cons, List.map_cons, hd, map_label_eq_replicate hc, hlength]
  | @application function arguments hf ha =>
    refine ⟨_, .application arguments.length, ?_⟩
    rw [List.map_cons, List.map_cons, hf, map_label_eq_replicate ha]

/-- **Children.**  A field is filled by what it takes. -/
theorem Layout.takes (h : Layout kind parts inside)
    (hx : ∀ x ∈ parts, x.node.kind.isExpression = true) {x : Part} (hmem : x ∈ parts)
    {field : Field} (hfield : x.label = some field) : kind.Takes field x.node.kind := by
  have hexpression := hx x hmem
  cases h with
  | @binding kind word kw t value hk hw ht hv =>
    rcases List.mem_cons.1 hmem with rfl | hvalue
    · cases hfield
      rfl
    · rw [List.mem_singleton.1 hvalue, hv] at hfield
      cases hfield
      cases hk <;> exact hexpression
  | @lambda kw opening names closing body hw ho hn hc hb =>
    rcases List.mem_append.1 hmem with hname | hbody
    · obtain ⟨t, -, rfl⟩ := List.mem_map.1 hname
      cases hfield
      rfl
    · rw [List.mem_singleton.1 hbody, hb] at hfield
      cases hfield
      exact hexpression
  | functionType hw hd hne hc =>
    rcases List.mem_cons.1 hmem with rfl | hcodomain
    · rw [hd] at hfield
      cases hfield
      exact hexpression
    · rw [hc x hcodomain] at hfield
      cases hfield
      exact hexpression
  | application hf ha =>
    rcases List.mem_cons.1 hmem with rfl | hargument
    · rw [hf] at hfield
      cases hfield
      exact hexpression
    · rw [ha x hargument] at hfield
      cases hfield
      exact hexpression

/-- **Views.**  The typed view of a form holds all of its children. -/
theorem Layout.viewed (h : Layout kind parts inside) (span : Span) :
    (Node.form kind span (parts.map Part.child)).Viewed kind := by
  cases h with
  | @binding kind word kw t value hk hw ht hv =>
    cases hk with
    | claim =>
      refine ⟨⟨.leaf .identifier t.span t.text, value.node⟩, ?_, rfl, rfl⟩
      simp only [Node.claim?, Node.kind, Node.field?, fieldsOf_form, if_true]
      simp [hv, Part.name, Parser.valueField]
    | define =>
      refine ⟨⟨.leaf .identifier t.span t.text, value.node⟩, ?_, rfl, rfl⟩
      simp only [Node.define?, Node.kind, Node.field?, fieldsOf_form, if_true]
      simp [hv, Part.name, Parser.valueField]
  | @lambda kw opening names closing body hw ho hn hc hb =>
    -- No name fills the body, which is therefore found behind all of them.
    have hnames := label_names .arguments names
    have hbody : (names.map (Part.name .arguments)).filter (fun x => x.label = some .body) = [] :=
      filter_label_eq_nil hnames (by simp)
    refine ⟨⟨(names.map (.name .arguments)).map Part.node, body.node⟩, ?_, ?_, ?_⟩
    · simp only [Node.lambda?, Node.kind, Node.field?, fieldsOf_form, if_true, List.filter_append,
        filter_label_eq_self hnames, hbody]
      simp [hb]
    · rw [children_form, List.map_append]
      rfl
    · rw [Lambda.argumentNames, List.map_map, List.map_map, List.map_map]
      simp [List.filterMap_map, Function.comp_def, Part.name, Node.text?]
  | @functionType kw domain codomains hw hd hne hc =>
    refine ⟨⟨domain.node, codomains.map Part.node⟩, ?_, children_form _ _ _, by simpa using hne⟩
    simp only [Node.functionType?, Node.kind, Node.field?, fieldsOf_form, if_true, List.filter_cons,
      filter_label_eq_self hc]
    simp [hd]
  | @application function arguments hf ha =>
    refine ⟨⟨function.node, arguments.map Part.node⟩, ?_, children_form _ _ _⟩
    simp only [Node.application?, Node.kind, Node.field?, fieldsOf_form, if_true, List.filter_cons,
      filter_label_eq_self ha]
    simp [hf]

end Layout

/-! ## What a spelled node is -/

namespace Spelled

variable {n : Node} {ts : List Token} {kind : FormKind}

/-- Everything inside of a form is an expression. -/
theorem children_isExpression (h : Spelled n ts) : ∀ c ∈ n.children, c.kind.isExpression = true := by
  intro c hc
  cases h with
  | leaf => cases hc
  | form ho hcl hl hp hx =>
    rw [children_form] at hc
    obtain ⟨x, hmem, rfl⟩ := List.mem_map.1 hc
    exact hx x hmem

theorem labels (h : Spelled n ts) (hk : n.kind = .form kind) : ∃ fields, kind.Labels fields ∧
    fields.length = n.children.length ∧ n.fields = fields.zipIdx := by
  cases h with
  | leaf => cases hk
  | form ho hcl hl hp hx =>
    cases hk
    obtain ⟨fields, hfields, hlabel⟩ := hl.labels
    refine ⟨fields, hfields, ?_, ?_⟩
    · have hlength := congrArg List.length hlabel
      rw [children_form]
      simpa using hlength.symm
    · rw [← label_child] at hlabel
      exact filterMap_zipIdx_of_labels hlabel 0

theorem takes (h : Spelled n ts) (hk : n.kind = .form kind) {field : Field} {c : Node}
    (hc : c ∈ n.fieldsOf field) : kind.Takes field c.kind := by
  cases h with
  | leaf => cases hk
  | form ho hcl hl hp hx =>
    cases hk
    rw [fieldsOf_form] at hc
    obtain ⟨x, hmem, rfl⟩ := List.mem_map.1 hc
    obtain ⟨hmem, hlabel⟩ := List.mem_filter.1 hmem
    exact hl.takes hx hmem (of_decide_eq_true hlabel)

theorem viewed (h : Spelled n ts) (hk : n.kind = .form kind) : n.Viewed kind := by
  cases h with
  | leaf => cases hk
  | form ho hcl hl hp hx =>
    cases hk
    exact hl.viewed _

end Spelled

/-- There is a text where there are no children, and the other way round. -/
theorem Node.text?_isSome (n : Node) :
    n.text?.isSome = n.kind.isLeaf ∧ (n.kind.isLeaf = true → n.children = []) := by
  cases n with
  | leaf => exact ⟨rfl, fun _ => rfl⟩
  | form => exact ⟨rfl, fun h => by cases h⟩

/-! ## Whole trees -/

section Parse

variable {settings : Settings} {source : List Char} {tree : SyntaxTree}

/-- The arrow is a keyword only where function types are a production. -/
theorem production_of_arrow (h : parse settings source = .ok tree) {t : Token}
    (ht : t ∈ tree.tokens) (hk : t.kind = .keyword .arrow) :
    settings.functionTypes = .production := by
  obtain ⟨q, here, last, eof, hts, -⟩ := exists_scan_of_parse h
  obtain ⟨before, mid, next, hbefore, -, took⟩ := hts.exists_took ht
  have hadmits := admits_of_lexeme took.lexeme_eq
  rw [hk, hbefore.arrows_eq] at hadmits
  have harrows : settings.arrows = true := by
    generalize (Lexer.Schedule.initial.afterAll before).mode = mode at hadmits
    cases mode with
    | plain => cases hadmits
    | head | topLevelHead => exact hadmits
  exact eq_of_beq harrows

/-- **The schema.**  Every tree that is parsed follows it. -/
theorem parse_follows_schema (h : parse settings source = .ok tree) :
    tree.FollowsSchema settings.functionTypes := by
  have spelled : ∀ n ∈ tree.below, ∃ ts, Spelled n ts := by
    intro n hn
    obtain ⟨f, hf, hn⟩ := List.mem_flatMap.1 hn
    obtain ⟨ts, -, hts⟩ := spelled_of_mem_form h hf hn
    exact ⟨ts, hts⟩
  obtain ⟨parts, hroot, hparts, -⟩ := exists_parts_of_parse h
  constructor
  case root => rw [hroot, Node.kind]
  case top =>
    refine fields_of_unlabelled fun c hc => ?_
    rw [hroot] at hc
    obtain ⟨x, hx, rfl⟩ := List.mem_map.1 hc
    exact (hparts x hx).1
  case source =>
    intro n hn hk
    obtain ⟨ts, hts⟩ := spelled n hn
    obtain ⟨fields, hlabels, -⟩ := hts.labels hk
    cases hlabels
  case expressions =>
    intro n hn
    obtain ⟨ts, hts⟩ := spelled n hn
    exact hts.children_isExpression
  case labels =>
    intro n hn kind hk
    obtain ⟨ts, hts⟩ := spelled n hn
    exact hts.labels hk
  case takes =>
    intro n hn kind hk field c hc
    obtain ⟨ts, hts⟩ := spelled n hn
    exact hts.takes hk hc
  case arrows =>
    intro n hn hk
    have hmem : n ∈ tree.root.descendants := by
      rw [tree.descendants_root]
      exact List.mem_cons_of_mem _ hn
    obtain ⟨t, ht, harrow, -⟩ := exists_arrow_of_mem_descendants h hmem hk
    exact production_of_arrow h ht harrow
  case texts => exact fun n _ => n.text?_isSome
  case views =>
    intro n hn kind hk
    obtain ⟨ts, hts⟩ := spelled n hn
    exact hts.viewed hk

end Parse

/-- The schema of a definition and of a function type. -/
theorem parse_follows_schema_functionType :
    ∃ tree, parse ⟨.production, 256⟩ "(define f (lambda (x y) x)) (-> A B)".toList = .ok tree ∧
      tree.FollowsSchema .production := by
  have hsome : (parse ⟨.production, 256⟩
      "(define f (lambda (x y) x)) (-> A B)".toList).toOption.isSome = true := by
    decide +kernel
  obtain ⟨tree, h⟩ := exists_tree_of_isSome hsome
  exact ⟨tree, h, parse_follows_schema h⟩

end PieSyntax
