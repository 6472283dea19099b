/-
# Fields as a side list

A node keeps the field of a child with the child.  The fields can also be kept in a list of their
own beside the children, each with the index of the child that fills it, and be looked up there by
index or by name (`FieldTable`).  A child that is added to both leaves the table that of the node
(`FieldTable.IsOf.add`).  Main statement: whatever children are added, with a field or without, the
node and the table give the same answers, no index leads nowhere, and every child is found under
exactly one label (`fields_are_views`).
-/
import Mathlib.Data.List.Perm.Basic
import Mathlib.Data.List.Sort
import PieSyntax.Node

namespace PieSyntax

/-! ## Children one after the other -/

/-- Adds a child with the field that it fills, if any. -/
def NodeBuilder.add (b : NodeBuilder) : Option Field × Node → NodeBuilder
  | (some field, child) => b.push field child
  | (none, child) => b.pushUnnamed child

/-- Children with a list beside them of the fields that are filled, each with the index of the child
that fills it. -/
structure FieldTable where
  children : List Node
  entries : List (Field × Nat)

namespace FieldTable

/-- No child and no field. -/
def empty : FieldTable := ⟨[], []⟩

/-- Adds a child with the field that it fills, if any. -/
def add (t : FieldTable) : Option Field × Node → FieldTable
  | (some field, child) => ⟨t.children ++ [child], t.entries ++ [(field, t.children.length)]⟩
  | (none, child) => ⟨t.children ++ [child], t.entries⟩

/-- The field listed first with the index. -/
def fieldOfChild (t : FieldTable) (index : Nat) : Option Field :=
  (t.entries.find? fun entry => entry.2 = index).map (·.1)

/-- The indices listed with the field. -/
def indicesOf (t : FieldTable) (field : Field) : List Nat :=
  (t.entries.filter fun entry => entry.1 = field).map (·.2)

/-- The children at the indices listed with the field.  An index behind the children is passed
over. -/
def fieldsOf (t : FieldTable) (field : Field) : List Node :=
  (t.indicesOf field).filterMap fun index => t.children[index]?

/-- The first of the children at the indices listed with the field. -/
def field? (t : FieldTable) (field : Field) : Option Node := (t.fieldsOf field).head?

end FieldTable

theorem NodeBuilder.foldl_add (b : NodeBuilder) (pushes : List (Option Field × Node)) :
    pushes.foldl add b = ⟨b.kind, b.children ++ pushes⟩ := by
  induction pushes generalizing b with
  | nil => simp
  | cons x pushes ih =>
    rw [List.foldl_cons, ih]
    rcases x with ⟨_ | field, child⟩ <;> simp [add, push, pushUnnamed]

/-- The children of a finished form are those that have been added. -/
theorem NodeBuilder.finish_foldl_add (kind : FormKind) (span : Span)
    (pushes : List (Option Field × Node)) :
    (pushes.foldl add (.empty kind)).finish span = .form kind span pushes := by
  rw [foldl_add, finish, empty]
  simp

namespace Node

/-! ## Indices -/

section Indices

variable {n : Node} {field : Field} {i : Nat}

/-- The children that fill no field, in source order. -/
def unnamed (n : Node) : List Node :=
  n.labelled.filterMap fun child => if child.1 = none then some child.2 else none

/-- The indices of the children with the label. -/
def indicesOf (n : Node) (label : Option Field) : List Nat :=
  (List.range n.children.length).filter fun i => n.fieldOfChild i = label

/-- The side table has an entry for each child with a field. -/
theorem mem_fields_iff : (field, i) ∈ n.fields ↔ n.fieldOfChild i = some field := by
  rw [fields, List.mem_filterMap, fieldOfChild, Option.bind_eq_some_iff]
  constructor
  · rintro ⟨⟨c, index⟩, hmem, hc⟩
    obtain ⟨label, hlabel, hentry⟩ := Option.map_eq_some_iff.1 hc
    cases hentry
    exact ⟨c, List.mk_mem_zipIdx_iff_getElem?.1 hmem, hlabel⟩
  · rintro ⟨c, hc, hlabel⟩
    exact ⟨(c, i), List.mk_mem_zipIdx_iff_getElem?.2 hc, by simp [hlabel]⟩

/-- The indices of the filled fields increase. -/
theorem pairwise_fields (n : Node) : n.fields.Pairwise fun x y => x.2 < y.2 := by
  have hindices : n.labelled.zipIdx.Pairwise fun x y => x.2 < y.2 := by
    rw [← List.pairwise_map, List.zipIdx_map_snd]
    exact List.pairwise_lt_range'
  refine hindices.filterMap _ ?_
  rintro x y hlt _ hx _ hy
  obtain ⟨_, -, rfl⟩ := Option.map_eq_some_iff.1 hx
  obtain ⟨_, -, rfl⟩ := Option.map_eq_some_iff.1 hy
  exact hlt

/-- Only children fill fields. -/
theorem lt_of_fieldOfChild (h : n.fieldOfChild i = some field) : i < n.children.length := by
  obtain ⟨c, hc, -⟩ := Option.bind_eq_some_iff.1 h
  rw [children, List.length_map]
  exact (List.getElem?_eq_some_iff.1 hc).1

/-- The indices under a label are those of the children with that label. -/
theorem mem_indicesOf_iff {label : Option Field} :
    i ∈ n.indicesOf label ↔ i < n.children.length ∧ n.fieldOfChild i = label := by
  rw [indicesOf, List.mem_filter, List.mem_range, decide_eq_true_iff]

/-- Looking up all the places with a label gives what is labelled so. -/
theorem map_filter_range (l : List (Option Field × Node)) (label : Option Field) :
    ((List.range (l.map (·.2)).length).filter fun i => l[i]?.bind (·.1) = label).map
        (fun i => (l.map (·.2))[i]?) =
      (l.filterMap fun c => if c.1 = label then some c.2 else none).map some := by
  induction l with
  | nil => rfl
  | cons c rest ih =>
    rw [List.map_cons, List.length_cons, List.range_succ_eq_map, List.filter_cons,
      List.filter_map, List.filterMap_cons]
    by_cases hc : c.1 = label
    · rw [if_pos (by simpa using hc), if_pos hc, List.map_cons, List.map_cons, List.map_map]
      exact congrArg (List.cons _) ih
    · rw [if_neg (by simpa using hc), if_neg hc, List.map_map]
      exact ih

/-- Under every index of a label there is a child, and together these are the children with the
label. -/
theorem map_indicesOf (n : Node) (label : Option Field) :
    (n.indicesOf label).map (fun i => n.children[i]?) =
      (n.labelled.filterMap fun c => if c.1 = label then some c.2 else none).map some :=
  map_filter_range n.labelled label

end Indices

/-- One child more fills its field at the index behind the others. -/
theorem fields_concat (kind : FormKind) (span : Span) (pushes : List (Option Field × Node))
    (x : Option Field × Node) :
    (form kind span (pushes ++ [x])).fields =
      (form kind span pushes).fields ++ (x.1.map fun field => (field, pushes.length)).toList := by
  rw [fields, labelled, List.zipIdx_append, List.filterMap_append, Nat.zero_add]
  rcases x with ⟨_ | field, child⟩ <;> rfl

end Node

/-! ## The table of a node -/

namespace FieldTable

/-- The table lists the children and the filled fields of the node. -/
structure IsOf (t : FieldTable) (n : Node) : Prop where
  children_eq : t.children = n.children
  entries_eq : t.entries = n.fields

section IsOf

variable {t : FieldTable} {n : Node} {kind : FormKind} {span : Span}
  {pushes : List (Option Field × Node)}

theorem isOf_empty (kind : FormKind) (span : Span) : empty.IsOf (.form kind span []) := ⟨rfl, rfl⟩

/-- **One child.**  The table of a form is still that of the form when a child is added to both. -/
theorem IsOf.add (h : t.IsOf (.form kind span pushes)) (x : Option Field × Node) :
    (t.add x).IsOf (.form kind span (pushes ++ [x])) := by
  have hchildren : t.children ++ [x.2] = (Node.form kind span (pushes ++ [x])).children := by
    rw [h.children_eq, Node.children, Node.children, Node.labelled, Node.labelled, List.map_append]
    rfl
  have hlength : t.children.length = pushes.length := by
    rw [h.children_eq]
    exact List.length_map _
  have hentries := Node.fields_concat kind span pushes x
  rw [← h.entries_eq, ← hlength] at hentries
  rcases x with ⟨_ | field, child⟩
  · exact ⟨hchildren, by rw [hentries]; exact (List.append_nil _).symm⟩
  · exact ⟨hchildren, hentries.symm⟩

/-- **All children.**  However many are added, with a field or without. -/
theorem IsOf.foldl_add {before : List (Option Field × Node)}
    (h : t.IsOf (.form kind span before)) (pushes : List (Option Field × Node)) :
    (pushes.foldl FieldTable.add t).IsOf (.form kind span (before ++ pushes)) := by
  induction pushes generalizing t before with
  | nil => rwa [List.append_nil]
  | cons x pushes ih =>
    rw [List.append_cons]
    exact ih (h.add x)

/-- The field of a child can be looked up in the table. -/
theorem IsOf.fieldOfChild_eq (h : t.IsOf n) (i : Nat) : t.fieldOfChild i = n.fieldOfChild i := by
  rw [fieldOfChild, h.entries_eq]
  cases hfind : n.fields.find? fun entry => entry.2 = i with
  | some entry =>
    obtain ⟨field, j⟩ := entry
    obtain rfl : j = i := by simpa using List.find?_some hfind
    exact (Node.mem_fields_iff.1 (List.mem_of_find?_eq_some hfind)).symm
  | none =>
    cases hfield : n.fieldOfChild i with
    | none => rfl
    | some field =>
      have hother := List.find?_eq_none.1 hfind _ (Node.mem_fields_iff.2 hfield)
      exact absurd (decide_eq_true rfl) hother

/-- The indices of a field can be looked up in the table. -/
theorem IsOf.indicesOf_eq (h : t.IsOf n) (field : Field) :
    t.indicesOf field = n.indicesOf (some field) := by
  have htable : (t.indicesOf field).Pairwise (· < ·) := by
    rw [indicesOf, h.entries_eq, List.pairwise_map]
    exact n.pairwise_fields.filter _
  have hnode : (n.indicesOf (some field)).Pairwise (· < ·) := List.pairwise_lt_range.filter _
  refine htable.eq_of_mem_iff hnode fun i => ?_
  rw [Node.mem_indicesOf_iff, indicesOf, h.entries_eq, List.mem_map]
  constructor
  · rintro ⟨⟨label, j⟩, hmem, rfl⟩
    obtain ⟨hentry, hlabel⟩ := List.mem_filter.1 hmem
    obtain rfl : label = field := by simpa using hlabel
    have hfield := Node.mem_fields_iff.1 hentry
    exact ⟨Node.lt_of_fieldOfChild hfield, hfield⟩
  · rintro ⟨-, hfield⟩
    exact ⟨(field, i), List.mem_filter.2 ⟨Node.mem_fields_iff.2 hfield, by simp⟩, rfl⟩

/-- No index in the table leads nowhere. -/
theorem IsOf.map_indicesOf (h : t.IsOf n) (field : Field) :
    (t.indicesOf field).map (fun i => t.children[i]?) = (n.fieldsOf field).map some := by
  rw [h.indicesOf_eq, h.children_eq]
  exact n.map_indicesOf (some field)

/-- The children of a field can be looked up in the table. -/
theorem IsOf.fieldsOf_eq (h : t.IsOf n) (field : Field) : t.fieldsOf field = n.fieldsOf field := by
  have hfound := congrArg (List.filterMap id) (h.map_indicesOf field)
  rw [List.filterMap_map, List.filterMap_map] at hfound
  exact hfound.trans List.filterMap_some

end IsOf

end FieldTable

/-! ## Every child under one label -/

namespace Field

/-- All fields. -/
def all : List Field := [identifier, type, body, arguments, function, domain, codomain]

theorem mem_all (f : Field) : f ∈ all := by cases f <;> decide

end Field

/-- Lists cut along a key are together the whole. -/
theorem perm_flatMap_filter {α κ : Type} [DecidableEq κ] (key : α → κ) {keys : List κ}
    (hkeys : keys.Nodup) {l : List α} (hl : ∀ x ∈ l, key x ∈ keys) :
    (keys.flatMap fun k => l.filter fun x => key x = k).Perm l := by
  induction keys generalizing l with
  | nil =>
    rw [List.eq_nil_iff_forall_not_mem.2 fun x hx => List.not_mem_nil (hl x hx)]
    rfl
  | cons k keys ih =>
    obtain ⟨hk, hkeys⟩ := List.nodup_cons.1 hkeys
    have hothers : (keys.flatMap fun k' => l.filter fun x => key x = k') = keys.flatMap fun k' =>
        (l.filter fun x => !decide (key x = k)).filter fun x => key x = k' := by
      refine List.flatMap_congr fun k' hk' => ?_
      rw [List.filter_filter]
      refine List.filter_congr fun x _ => ?_
      have hne : k' ≠ k := fun heq => hk (heq ▸ hk')
      by_cases hx : key x = k' <;> simp [hx, hne]
    rw [List.flatMap_cons, hothers]
    refine List.Perm.trans (.append_left _ (ih hkeys ?_)) (List.filter_append_perm _ l)
    intro x hx
    obtain ⟨hx, hne⟩ := List.mem_filter.1 hx
    exact (List.mem_cons.1 (hl x hx)).resolve_left (by simpa using hne)

namespace Node

/-- Every child has one label. -/
theorem perm_indicesOf (n : Node) :
    ((none :: Field.all.map some).flatMap n.indicesOf).Perm (List.range n.children.length) := by
  refine perm_flatMap_filter n.fieldOfChild (by decide) fun i _ => ?_
  cases n.fieldOfChild i with
  | none => exact List.mem_cons_self
  | some field => exact List.mem_cons_of_mem _ (List.mem_map_of_mem (Field.mem_all field))

/-- Every child is among those that fill no field or among those that fill one of the fields. -/
theorem perm_unnamed_append (n : Node) :
    (n.unnamed ++ Field.all.flatMap n.fieldsOf).Perm n.children := by
  have hperm := n.perm_indicesOf.map fun i => n.children[i]?
  have hall : (List.range n.children.length).map (fun i => n.children[i]?) =
      n.children.map some := List.ext_getElem (by simp) fun i h h' => by simp
  rw [List.map_flatMap, hall] at hperm
  simp only [map_indicesOf] at hperm
  rw [List.flatMap_cons, List.flatMap_map, ← List.map_flatMap, ← List.map_append] at hperm
  exact (List.map_perm_map_iff (Option.some_injective Node)).1 hperm

end Node

/-- **Fields as views.**  Whatever children are added to a form, with a field or without, they are
its children in the same order.  The indices of the filled fields increase and are those of children;
a child has the field with which it was added, and the children of a field are those at its indices,
none of which leads nowhere.  The children of all fields and those without a field are all the
children.  A table beside the children gives the same answers. -/
theorem fields_are_views (kind : FormKind) (span : Span) (pushes : List (Option Field × Node)) :
    let n := (pushes.foldl NodeBuilder.add (.empty kind)).finish span
    let t := pushes.foldl FieldTable.add .empty
    n.children = pushes.map (·.2) ∧
    (n.fields.Pairwise fun x y => x.2 < y.2) ∧
    (∀ entry ∈ n.fields, entry.2 < n.children.length) ∧
    (∀ i, n.fieldOfChild i = pushes[i]?.bind (·.1)) ∧
    (∀ field, (n.indicesOf (some field)).map (fun i => n.children[i]?) =
        (n.fieldsOf field).map some ∧
      n.field? field = (n.fieldsOf field).head?) ∧
    (n.indicesOf none).map (fun i => n.children[i]?) = n.unnamed.map some ∧
    ((none :: Field.all.map some).flatMap n.indicesOf).Perm (List.range n.children.length) ∧
    (n.unnamed ++ Field.all.flatMap n.fieldsOf).Perm n.children ∧
    t.children = n.children ∧ t.entries = n.fields ∧
    (∀ i, t.fieldOfChild i = n.fieldOfChild i) ∧
    ∀ field, (t.indicesOf field).map (fun i => t.children[i]?) = (t.fieldsOf field).map some ∧
      t.fieldsOf field = n.fieldsOf field ∧ t.field? field = n.field? field := by
  intro n t
  have hn : n = .form kind span pushes := NodeBuilder.finish_foldl_add kind span pushes
  have ht : t.IsOf n := by
    rw [hn]
    exact (FieldTable.isOf_empty kind span).foldl_add pushes
  refine ⟨?_, n.pairwise_fields, ?_, ?_, ?_, n.map_indicesOf none, n.perm_indicesOf,
    n.perm_unnamed_append, ht.children_eq, ht.entries_eq, ht.fieldOfChild_eq, ?_⟩
  · rw [hn]
    rfl
  · rintro ⟨field, i⟩ hentry
    exact Node.lt_of_fieldOfChild (Node.mem_fields_iff.1 hentry)
  · rw [hn]
    exact fun i => rfl
  · exact fun field => ⟨n.map_indicesOf (some field), rfl⟩
  · intro field
    have hfields := ht.fieldsOf_eq field
    refine ⟨?_, hfields, congrArg List.head? hfields⟩
    rw [hfields]
    exact ht.map_indicesOf field

end PieSyntax
