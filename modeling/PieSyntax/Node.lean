/-
# Nodes of the concrete syntax tree

A leaf holds the text of one token; a form holds its children in source order, each with the field
it fills in its parent, if any.
-/
import PieSyntax.Span

namespace PieSyntax

/-! ## Kinds and fields -/

/-- The kinds of nodes that hold a text. -/
inductive LeafKind where
  | atom
  | identifier
  | typeIdentifier
deriving DecidableEq

/-- The kinds of nodes that hold children. -/
inductive FormKind where
  | source
  | claim
  | define
  | lambda
  | application
  | functionType
deriving DecidableEq

/-- The kinds of nodes. -/
inductive NodeKind where
  | leaf (kind : LeafKind)
  | form (kind : FormKind)
deriving DecidableEq

/-- The name of the kind in every printed tree. -/
def LeafKind.name : LeafKind → List Char
  | atom => "atom".toList
  | identifier => "identifier".toList
  | typeIdentifier => "type_identifier".toList

/-- The name of the kind in every printed tree. -/
def FormKind.name : FormKind → List Char
  | source => "source".toList
  | claim => "claim".toList
  | define => "define".toList
  | lambda => "lambda".toList
  | application => "application".toList
  | functionType => "function_type".toList

namespace NodeKind

/-- The name of the kind in every printed tree. -/
def name : NodeKind → List Char
  | leaf k => k.name
  | form k => k.name

/-- Whether nodes of this kind stand where an expression is read. -/
def isExpression : NodeKind → Bool
  | form .source | form .claim | form .define => false
  | _ => true

/-- Whether nodes of this kind hold a text. -/
def isLeaf : NodeKind → Bool
  | leaf _ => true
  | form _ => false

end NodeKind

/-- The part that a child plays in its parent. -/
inductive Field where
  | identifier
  | type
  | body
  | arguments
  | function
  | domain
  | codomain
deriving DecidableEq

/-- The name of the field in every printed tree. -/
def Field.name : Field → List Char
  | identifier => "identifier".toList
  | type => "type".toList
  | body => "body".toList
  | arguments => "arguments".toList
  | function => "function".toList
  | domain => "domain".toList
  | codomain => "codomain".toList

/-! ## Nodes -/

/-- A node of the tree.  Every child comes with the field it fills. -/
inductive Node where
  | leaf (kind : LeafKind) (span : Span) (text : List Char)
  | form (kind : FormKind) (span : Span) (children : List (Option Field × Node))

namespace Node

/-- The kind of the node. -/
def kind : Node → NodeKind
  | leaf k _ _ => .leaf k
  | form k _ _ => .form k

/-- Where the node stands in the source. -/
def span : Node → Span
  | leaf _ s _ => s
  | form _ s _ => s

/-- The text of a leaf. -/
def text? : Node → Option (List Char)
  | leaf _ _ text => some text
  | form _ _ _ => none

/-- The children with their fields. -/
def labelled : Node → List (Option Field × Node)
  | leaf _ _ _ => []
  | form _ _ children => children

/-- The children in source order. -/
def children (n : Node) : List Node := n.labelled.map (·.2)

/-- The fields that are filled, each with the index of the child that fills it. -/
def fields (n : Node) : List (Field × Nat) :=
  n.labelled.zipIdx.filterMap fun (child, index) => child.1.map (·, index)

/-- The field that the child at `index` fills. -/
def fieldOfChild (n : Node) (index : Nat) : Option Field :=
  n.labelled[index]?.bind (·.1)

/-- The children that fill `field`, in source order. -/
def fieldsOf (n : Node) (field : Field) : List Node :=
  n.labelled.filterMap fun child => if child.1 = some field then some child.2 else none

/-- The first child that fills `field`. -/
def field? (n : Node) (field : Field) : Option Node := (n.fieldsOf field).head?

/-- The name of an atom, without its quote. -/
def atomName? : Node → Option (List Char)
  | leaf .atom _ ('\'' :: name) => some name
  | _ => none

/-! ## Traversal -/

mutual

/-- The number of nodes in the tree below and including this one. -/
def size : Node → Nat
  | leaf _ _ _ => 1
  | form _ _ children => 1 + sizeAll children

/-- The number of nodes in the trees of all children. -/
def sizeAll : List (Option Field × Node) → Nat
  | [] => 0
  | (_, n) :: rest => n.size + sizeAll rest

end

/-- The number of nodes in the trees of a stack of nodes. -/
def stackSize : List Node → Nat
  | [] => 0
  | n :: stack => n.size + stackSize stack

theorem stackSize_append (xs ys : List Node) :
    stackSize (xs ++ ys) = stackSize xs + stackSize ys := by
  induction xs with
  | nil => simp [stackSize]
  | cons n xs ih => simp [stackSize, ih, Nat.add_assoc]

/-- A node has one more node than its children together. -/
theorem stackSize_children (n : Node) : stackSize n.children + 1 = n.size := by
  cases n with
  | leaf => rfl
  | form k s children =>
    have all : stackSize (children.map (·.2)) = sizeAll children := by
      induction children with
      | nil => rfl
      | cons c rest ih =>
        obtain ⟨label, n⟩ := c
        rw [List.map_cons, stackSize, ih, sizeAll]
    show stackSize (children.map (·.2)) + 1 = 1 + sizeAll children
    omega

/-- Visits the node on top of the stack and puts its children in its place, first child on top. -/
def walk : List Node → List Node
  | [] => []
  | n :: stack => n :: walk (n.children ++ stack)
termination_by stack => stackSize stack
decreasing_by
  have := stackSize_children n
  rw [stackSize_append, stackSize]
  omega

/-- The node and everything below it, each node before its children. -/
def descendants (n : Node) : List Node := walk [n]

theorem walk_append (xs ys : List Node) : walk (xs ++ ys) = walk xs ++ walk ys := by
  fun_induction walk xs with
  | case1 => rfl
  | case2 n stack ih => rw [List.cons_append, walk, ← List.append_assoc, ih, List.cons_append]

/-- The nodes below the roots `xs` are visited root by root. -/
theorem walk_eq_flatMap (xs : List Node) : walk xs = xs.flatMap descendants := by
  induction xs with
  | nil => rw [walk, List.flatMap_nil]
  | cons n xs ih => rw [List.flatMap_cons, ← ih, descendants, ← walk_append, List.singleton_append]

/-- Below a node are the node itself and what is below its children. -/
theorem mem_descendants_iff {m n : Node} :
    m ∈ n.descendants ↔ m = n ∨ ∃ c ∈ n.children, m ∈ c.descendants := by
  rw [descendants, walk, List.append_nil, walk_eq_flatMap, List.mem_cons, List.mem_flatMap]

end Node

/-! ## Building forms -/

/-- A form under construction. -/
structure NodeBuilder where
  kind : FormKind
  children : Array (Option Field × Node)

namespace NodeBuilder

/-- A form of the given kind without children. -/
def empty (kind : FormKind) : NodeBuilder := ⟨kind, #[]⟩

/-- Adds a child that fills `field`. -/
def push (b : NodeBuilder) (field : Field) (child : Node) : NodeBuilder :=
  { b with children := b.children.push (some field, child) }

/-- Adds a child that fills no field. -/
def pushUnnamed (b : NodeBuilder) (child : Node) : NodeBuilder :=
  { b with children := b.children.push (none, child) }

/-- The finished form. -/
def finish (b : NodeBuilder) (span : Span) : Node := .form b.kind span b.children.toList

end NodeBuilder

end PieSyntax
