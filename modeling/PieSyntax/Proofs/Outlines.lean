/-
# Outlines and traversals

A tree can be walked with a stack and shown as an outline, and both go through its nodes in pre-order:
a node comes before its children, and they come from first to last.  A node is told by the path that
leads down to it, which is the list of the indices of the children on the way; pre-order is the
lexicographic order of the paths.  Main statements: the walk is the recursive pre-order
(`Node.descendants_eq_preorder`), which follows the paths (`Node.map_preorder`), an outline has one row
for each path (`Node.plain_outlineFrom`), and no row holds a control character
(`Node.not_control_of_mem_row`), so that it stays on its line and its colours can be taken away
(`StyledText.stripEscapes_ansi`).
-/
import Mathlib.Data.List.Basic
import PieSyntax.Node.Outline
import PieSyntax.Text.Lines

namespace PieSyntax

open Text

/-! ## Control characters -/

namespace Text

/-- A character that is not drawn: line feeds and the beginning of escape sequences are among them. -/
def IsControl (c : Char) : Prop := c.toNat < 0x20

instance : DecidablePred IsControl := fun c => inferInstanceAs (Decidable (c.toNat < 0x20))

/-- A closed text can be looked through. -/
theorem not_control_of_all {text : List Char} (h : text.all fun c => decide (¬ IsControl c)) :
    ∀ c ∈ text, ¬ IsControl c := fun c hc =>
  of_decide_eq_true (List.all_eq_true.1 h c hc)

theorem not_control_digitChar : ∀ n < 16, ¬ IsControl (Nat.digitChar n) := by
  decide

/-- The digits of a number are drawn. -/
theorem not_control_of_mem_toDigits {b n : Nat} (hb : 1 < b) (hb' : b ≤ 16) :
    ∀ c ∈ Nat.toDigits b n, ¬ IsControl c := by
  induction n using Nat.strongRecOn with
  | ind n ih =>
    intro c hc
    rw [Nat.toDigits_eq_if hb] at hc
    split at hc
    · next hn =>
      rw [List.mem_singleton.1 hc]
      exact not_control_digitChar n (by omega)
    · next hn =>
      rcases List.mem_append.1 hc with hc | hc
      · exact ih (n / b) (Nat.div_lt_self (by omega) hb) c hc
      · rw [List.mem_singleton.1 hc]
        exact not_control_digitChar _ (Nat.lt_of_lt_of_le (Nat.mod_lt n (by omega)) hb')

/-- What is written for the code of a character is drawn. -/
theorem not_control_of_mem_escapeCode {c : Char} : ∀ d ∈ escapeCode c, ¬ IsControl d := by
  intro d hd
  rw [escapeCode, List.mem_append, List.mem_append] at hd
  have hfront : ∀ d ∈ "\\u\x7b".toList, ¬ IsControl d := not_control_of_all (by decide)
  rcases hd with (hd | hd) | hd
  · exact hfront d hd
  · exact not_control_of_mem_toDigits (by decide) (by decide) d hd
  · rw [List.mem_singleton.1 hd]
    decide

/-- A control character is never written as itself. -/
theorem not_control_of_mem_quoteChar {c : Char} : ∀ d ∈ quoteChar c, ¬ IsControl d := by
  rw [quoteChar]
  split_ifs with hquote hbackslash hfeed hreturn htab hzero hcode
  · exact not_control_of_all (by decide)
  · exact not_control_of_all (by decide)
  · exact not_control_of_all (by decide)
  · exact not_control_of_all (by decide)
  · exact not_control_of_all (by decide)
  · exact not_control_of_all (by decide)
  · exact not_control_of_mem_escapeCode
  · simp only [Bool.or_eq_true, decide_eq_true_eq, not_or] at hcode
    intro d hd
    rw [List.mem_singleton.1 hd]
    exact hcode.1.1

/-- Whatever a text holds, between quotes all of it is drawn. -/
theorem not_control_of_mem_quoted {text : List Char} : ∀ c ∈ quoted text, ¬ IsControl c := by
  intro c hc
  rw [quoted, List.cons_append, List.mem_cons, List.mem_append, List.mem_singleton] at hc
  rcases hc with rfl | hc | rfl
  · decide
  · obtain ⟨d, -, hd⟩ := List.mem_flatMap.1 hc
    exact not_control_of_mem_quoteChar c hd
  · decide

/-! ## Lines -/

/-- A line without line feeds stands in front of the others. -/
theorem lines_append {u : List Char} (hu : '\n' ∉ u) (v : List Char) :
    lines (u ++ '\n' :: v) = (u ++ ['\n']) :: lines v := by
  induction u with
  | nil => rw [List.nil_append, lines, cutAfter, if_pos rfl]; rfl
  | cons c u ih =>
    rw [List.mem_cons, not_or] at hu
    have hlines : cutAfter '\n' (u ++ '\n' :: v) = (u ++ ['\n']) :: lines v := ih hu.2
    rw [List.cons_append, lines, cutAfter, if_neg (Ne.symm hu.1), hlines]
    rfl

/-- Rows without line feeds, each with one behind it, are the lines of their text. -/
theorem lines_flatMap {rows : List (List Char)} (h : ∀ row ∈ rows, '\n' ∉ row) :
    lines (rows.flatMap (· ++ ['\n'])) = rows.map (· ++ ['\n']) := by
  induction rows with
  | nil => rfl
  | cons row rows ih =>
    obtain ⟨hrow, hrows⟩ := List.forall_mem_cons.1 h
    rw [List.flatMap_cons, List.append_assoc, List.singleton_append, lines_append hrow, ih hrows,
      List.map_cons]

end Text

/-! ## Escape sequences -/

namespace StyledText

/-- Whether `c` ends an escape sequence. -/
def endsEscape (c : Char) : Bool := 0x40 ≤ c.toNat && c.toNat ≤ 0x7E

/-- `text` without its escape sequences, each of which goes from an escape character and a bracket up
to the first character that ends it. -/
def stripEscapes : List Char → List Char
  | [] => []
  | c :: rest =>
    if c = '\x1b' ∧ rest.head? = some '[' then
      stripEscapes ((rest.tail.dropWhile fun d => !endsEscape d).tail)
    else c :: stripEscapes rest
termination_by text => text.length
decreasing_by
  · have hdrop := (List.dropWhile_sublist (l := rest.tail) fun d => !endsEscape d).length_le
    simp only [List.length_tail, List.length_cons] at hdrop ⊢
    omega
  · exact Nat.lt_succ_self _

/-- A text without escape characters is kept. -/
theorem stripEscapes_append {u : List Char} (hu : '\x1b' ∉ u) (v : List Char) :
    stripEscapes (u ++ v) = u ++ stripEscapes v := by
  induction u with
  | nil => rfl
  | cons c u ih =>
    rw [List.mem_cons, not_or] at hu
    rw [List.cons_append, stripEscapes, if_neg fun h => hu.1 h.1.symm, ih hu.2, List.cons_append]

/-- An escape sequence is dropped. -/
theorem stripEscapes_escape {parameter : List Char} (h : parameter.all fun c => !endsEscape c)
    (v : List Char) : stripEscapes (escape parameter ++ v) = stripEscapes v := by
  have hdrop : ((parameter ++ 'm' :: v).dropWhile fun d => !endsEscape d) = 'm' :: v := by
    rw [List.dropWhile_append_of_pos (List.all_eq_true.1 h), List.dropWhile_cons_of_neg (by decide)]
  have hcut : escape parameter ++ v = '\x1b' :: '[' :: (parameter ++ 'm' :: v) := by
    simp [escape]
  rw [hcut, stripEscapes, if_pos ⟨rfl, rfl⟩, List.tail_cons, hdrop, List.tail_cons]

theorem stripEscapes_escapeStyle (s : Style) (v : List Char) :
    stripEscapes (escapeStyle s ++ v) = stripEscapes v := by
  obtain ⟨bold, dimmed, colour⟩ := s
  have hcolour : ∀ c : Colour, stripEscapes (escape ['3', c.digit] ++ v) = stripEscapes v :=
    fun c => stripEscapes_escape (by cases c <;> decide) v
  rw [escapeStyle]
  simp only [List.append_assoc]
  rw [stripEscapes_escape (by decide)]
  cases bold <;> cases dimmed <;>
    simp only [if_true, if_false, Bool.false_eq_true, List.nil_append] <;>
    repeat rw [stripEscapes_escape (by decide)]
  all_goals
    cases colour with
    | none => rfl
    | some c => exact hcolour c

/-- **Colours.**  Where no escape character is written as text, the escape sequences can be told from
the text and taken away. -/
theorem stripEscapes_ansi {t : StyledText} (h : '\x1b' ∉ plain t) :
    stripEscapes (ansi t) = plain t := by
  induction t with
  | nil =>
    rw [ansi, List.flatMap_nil, stripEscapes]
    rfl
  | cons piece t ih =>
    rw [ansi, List.flatMap_cons]
    rw [plain, List.flatMap_cons, List.mem_append, not_or] at h
    rw [plain, List.flatMap_cons]
    cases piece with
    | text cs => exact (stripEscapes_append h.1 _).trans (congrArg (cs ++ ·) (ih h.2))
    | style s => exact (stripEscapes_escapeStyle s _).trans (ih h.2)
    | reset => exact (stripEscapes_escape (by decide) _).trans (ih h.2)

end StyledText

/-! ## Pre-order -/

namespace Node

/-- What holds of a node if it holds of its children holds of all nodes. -/
theorem induction_children {P : Node → Prop} (step : ∀ n, (∀ c ∈ n.children, P c) → P n) :
    ∀ n, P n := by
  suffices below : ∀ k n, n.size ≤ k → P n from fun n => below n.size n (Nat.le_refl _)
  intro k
  induction k with
  | zero =>
    intro n hn
    have := stackSize_children n
    omega
  | succ k ih =>
    intro n hn
    refine step n fun c hc => ih c ?_
    obtain ⟨before, after, hcut⟩ := List.append_of_mem hc
    have hsize := stackSize_children n
    rw [hcut, stackSize_append, stackSize] at hsize
    omega

mutual

/-- The nodes of the tree in pre-order. -/
def preorder : Node → List Node
  | leaf kind span text => [leaf kind span text]
  | form kind span children => form kind span children :: preorderAll children

/-- The nodes of the trees of all children in pre-order. -/
def preorderAll : List (Option Field × Node) → List Node
  | [] => []
  | (_, n) :: rest => n.preorder ++ preorderAll rest

end

theorem preorderAll_eq (cs : List (Option Field × Node)) :
    preorderAll cs = cs.flatMap fun c => c.2.preorder := by
  induction cs with
  | nil => rfl
  | cons c cs ih => rw [preorderAll, ih, List.flatMap_cons]

/-- In pre-order a node stands before what is below each of its children. -/
theorem preorder_eq (n : Node) : n.preorder = n :: n.labelled.flatMap fun c => c.2.preorder := by
  cases n with
  | leaf => rfl
  | form kind span cs => rw [preorder, preorderAll_eq, labelled]

/-- **The walk.**  A stack of nodes is visited tree by tree, and each tree in pre-order. -/
theorem walk_eq_preorder (stack : List Node) : walk stack = stack.flatMap preorder := by
  fun_induction walk stack with
  | case1 => rfl
  | case2 n stack ih =>
    rw [ih, List.flatMap_append, List.flatMap_cons, preorder_eq n, children, List.flatMap_map,
      List.cons_append]

/-- The walk visits as many nodes as there are. -/
theorem length_walk (stack : List Node) : (walk stack).length = stackSize stack := by
  fun_induction walk stack with
  | case1 => rfl
  | case2 n stack ih =>
    have hsize := stackSize_children n
    rw [stackSize_append] at ih
    rw [List.length_cons, ih, stackSize]
    omega

/-- The walk from a node alone is its pre-order. -/
theorem descendants_eq_preorder (n : Node) : n.descendants = n.preorder := by
  rw [descendants, walk_eq_preorder, List.flatMap_singleton]

/-! ## Paths -/

/-- What stands at the end of a path down from a node, with the field that it fills in its parent;
`field` is that of the node itself. -/
def below? (field : Option Field) (n : Node) : List Nat → Option (Option Field × Node)
  | [] => some (field, n)
  | i :: rest => n.children[i]?.bind fun c => below? (n.fieldOfChild i) c rest

mutual

/-- All paths down from a node in lexicographic order. -/
def paths : Node → List (List Nat)
  | leaf _ _ _ => [[]]
  | form _ _ children => [] :: pathsFrom 0 children

/-- The paths through the children, the first of which has index `i`. -/
def pathsFrom (i : Nat) : List (Option Field × Node) → List (List Nat)
  | [] => []
  | (_, n) :: rest => n.paths.map (i :: ·) ++ pathsFrom (i + 1) rest

end

/-- The paths into children begin with the index of the child. -/
theorem pathsFrom_eq (i : Nat) (cs : List (Option Field × Node)) :
    pathsFrom i cs = (cs.zipIdx i).flatMap fun c => c.1.2.paths.map (c.2 :: ·) := by
  induction cs generalizing i with
  | nil => rfl
  | cons c cs ih => rw [pathsFrom, ih, List.zipIdx_cons, List.flatMap_cons]

/-- The paths from a node are its own and those into each of its children. -/
theorem paths_eq (n : Node) :
    n.paths = [] :: n.labelled.zipIdx.flatMap fun c => c.1.2.paths.map (c.2 :: ·) := by
  cases n with
  | leaf => rfl
  | form kind span cs => rw [paths, pathsFrom_eq, labelled]

/-- The way through a child goes on from the child. -/
theorem below?_cons {n : Node} {field : Option Field} {c : Option Field × Node} {i : Nat}
    (h : n.labelled[i]? = some c) (p : List Nat) : below? field n (i :: p) = below? c.1 c.2 p := by
  rw [below?, children, List.getElem?_map, h, fieldOfChild, h]
  rfl

/-- The paths are the lists of indices that lead somewhere. -/
theorem mem_paths_iff {n : Node} {field : Option Field} {p : List Nat} :
    p ∈ n.paths ↔ (below? field n p).isSome = true := by
  induction p generalizing n field with
  | nil =>
    rw [paths_eq]
    exact iff_of_true List.mem_cons_self rfl
  | cons i p ih =>
    rw [paths_eq, List.mem_cons, List.mem_flatMap]
    constructor
    · rintro (h | ⟨⟨c, j⟩, hc, hp⟩)
      · cases h
      · obtain ⟨q, hq, hcons⟩ := List.mem_map.1 hp
        cases hcons
        rw [below?_cons (List.mk_mem_zipIdx_iff_getElem?.1 hc)]
        exact ih.1 hq
    · intro h
      refine .inr ?_
      cases hc : n.labelled[i]? with
      | none =>
        rw [below?, children, List.getElem?_map, hc] at h
        cases h
      | some c =>
        rw [below?_cons hc] at h
        exact ⟨(c, i), List.mk_mem_zipIdx_iff_getElem?.2 hc, List.mem_map.2 ⟨p, ih.2 h, rfl⟩⟩

/-- The paths are in lexicographic order, and so none is there twice. -/
theorem pairwise_paths (n : Node) : n.paths.Pairwise (· < ·) := by
  induction n using induction_children with
  | step n ih =>
    rw [paths_eq, List.pairwise_cons, List.pairwise_flatMap]
    refine ⟨?_, ?_, ?_⟩
    · intro p hp
      obtain ⟨c, -, hp⟩ := List.mem_flatMap.1 hp
      obtain ⟨q, -, rfl⟩ := List.mem_map.1 hp
      exact List.nil_lt_cons _ _
    · intro c hc
      have hchild : c.1.2 ∈ n.children := List.mem_map_of_mem (List.fst_mem_of_mem_zipIdx hc)
      rw [List.pairwise_map]
      exact (ih _ hchild).imp fun hlt => List.cons_lt_cons_iff.2 (.inr ⟨rfl, hlt⟩)
    · -- Paths through an earlier child come first, because its index is smaller.
      have hindices : (n.labelled.zipIdx.map (·.2)).Pairwise (· < ·) := by
        rw [List.zipIdx_map_snd]
        exact List.pairwise_lt_range'
      refine (List.pairwise_map.1 hindices).imp fun hlt => ?_
      intro p hp q hq
      obtain ⟨p', -, rfl⟩ := List.mem_map.1 hp
      obtain ⟨q', -, rfl⟩ := List.mem_map.1 hq
      exact List.cons_lt_cons_iff.2 (.inl hlt)

/-- The root of a tree comes first, and then the paths through each of its children. -/
theorem map_paths {β : Type} (f : List Nat → β) (n : Node) : n.paths.map f =
    f [] :: n.labelled.zipIdx.flatMap fun c => c.1.2.paths.map fun p => f (c.2 :: p) := by
  rw [paths_eq, List.map_cons, List.map_flatMap]
  simp only [List.map_map]
  rfl

/-- What the children contribute one after the other can be told by their indices. -/
theorem flatMap_labelled {β : Type} {n : Node} {f : Option Field × Node → List β}
    {g : (Option Field × Node) × Nat → List β}
    (h : ∀ c i, n.labelled[i]? = some c → f c = g (c, i)) :
    n.labelled.flatMap f = n.labelled.zipIdx.flatMap g := by
  have hfst := congrArg (List.flatMap f) (List.zipIdx_map_fst 0 n.labelled)
  rw [← hfst, List.flatMap_map]
  exact List.flatMap_congr fun c hc => h c.1 c.2 (List.mem_zipIdx_iff_getElem?.1 hc)

/-- **Pre-order.**  The pre-order visits the ends of the paths one by one. -/
theorem map_preorder (field : Option Field) (n : Node) :
    n.preorder.map some = n.paths.map fun p => (below? field n p).map (·.2) := by
  induction n using induction_children generalizing field with
  | step n ih =>
    rw [preorder_eq, map_paths, List.map_cons, List.map_flatMap]
    refine congrArg (some n :: ·) (flatMap_labelled fun c i hc => ?_)
    have hchild : c.2 ∈ n.children := List.mem_map_of_mem (List.mem_of_getElem? hc)
    rw [ih c.2 hchild c.1]
    simp only [below?_cons hc]

/-! ## Rows -/

/-- The row that shows the node `n` at the given depth, where it fills `field`. -/
def row (depth : Nat) (field : Option Field) (n : Node) : List Char :=
  List.replicate (2 * depth) ' ' ++ fieldLabel field ++ n.kind.name ++
    (match n.text? with
      | none => []
      | some text => ' ' :: quoted text) ++ ' ' :: n.span.render

theorem outlineAll_eq (depth : Nat) (cs : List (Option Field × Node)) :
    outlineAll depth cs = cs.flatMap fun c => outlineFrom c.1 depth c.2 := by
  induction cs with
  | nil => rfl
  | cons c cs ih => rw [outlineAll, ih, List.flatMap_cons]

/-- An outline is the line of its node and the outlines of the children, one step deeper. -/
theorem outlineFrom_eq (field : Option Field) (depth : Nat) (n : Node) :
    outlineFrom field depth n = outlineLine field depth n ++
      n.labelled.flatMap fun c => outlineFrom c.1 (depth + 1) c.2 := by
  cases n with
  | leaf => rw [outlineFrom, labelled, List.flatMap_nil, List.append_nil]
  | form kind span cs => rw [outlineFrom, outlineAll_eq, labelled]

/-- The line of a node is its row and a line feed. -/
theorem plain_outlineLine (field : Option Field) (depth : Nat) (n : Node) :
    StyledText.plain (outlineLine field depth n) = row depth field n ++ ['\n'] := by
  cases hfield : field <;> cases htext : n.text? <;>
    simp [outlineLine, outlineField, outlineText, row, StyledText.plain, fieldLabel, htext]

theorem plain_flatMap {α : Type} (f : α → StyledText) (l : List α) :
    StyledText.plain (l.flatMap f) = l.flatMap fun a => StyledText.plain (f a) := by
  simp only [StyledText.plain, List.flatMap_assoc]

/-- The row at the end of a path down from a node that stands at `depth` and fills `field`. -/
def rowAt (field : Option Field) (depth : Nat) (n : Node) (p : List Nat) : List Char :=
  match below? field n p with
  | none => []
  | some (label, m) => row (depth + p.length) label m

/-- The row at a path into a child is a row of that child, one step deeper. -/
theorem rowAt_cons {n : Node} {field : Option Field} {depth : Nat} {c : Option Field × Node}
    {i : Nat} (h : n.labelled[i]? = some c) (p : List Nat) :
    rowAt field depth n (i :: p) = rowAt c.1 (depth + 1) c.2 p := by
  rw [rowAt, rowAt, below?_cons h, List.length_cons, Nat.add_assoc, Nat.add_comm 1]

/-- **Rows.**  An outline has one row for each path. -/
theorem plain_outlineFrom (field : Option Field) (depth : Nat) (n : Node) :
    StyledText.plain (outlineFrom field depth n) =
      (n.paths.map (rowAt field depth n)).flatMap (· ++ ['\n']) := by
  induction n using induction_children generalizing field depth with
  | step n ih =>
    rw [outlineFrom_eq, StyledText.plain_append, plain_outlineLine, plain_flatMap, map_paths,
      List.flatMap_cons, List.flatMap_assoc]
    refine congrArg (row depth field n ++ ['\n'] ++ ·) (flatMap_labelled fun c i hc => ?_)
    have hchild : c.2 ∈ n.children := List.mem_map_of_mem (List.mem_of_getElem? hc)
    rw [ih c.2 hchild]
    simp only [rowAt_cons hc]

/-- Everything in a row is drawn. -/
theorem not_control_of_mem_row {depth : Nat} {field : Option Field} {n : Node} :
    ∀ c ∈ row depth field n, ¬ IsControl c := by
  intro c h
  simp only [row, List.mem_append] at h
  -- Indentation, field, kind, text and span; only a text comes from the source, and it is quoted.
  rcases h with (((h | h) | h) | h) | h
  · rw [List.eq_of_mem_replicate h]
    decide
  · revert c
    cases field with
    | none => exact not_control_of_all (by decide)
    | some field => exact not_control_of_all (by cases field <;> decide)
  · revert c
    cases n.kind with
    | leaf kind => exact not_control_of_all (by cases kind <;> decide)
    | form kind => exact not_control_of_all (by cases kind <;> decide)
  · cases htext : n.text? with
    | none =>
      rw [htext] at h
      cases h
    | some text =>
      rw [htext] at h
      rcases List.mem_cons.1 h with rfl | h
      · decide
      · exact not_control_of_mem_quoted c h
  · simp only [Span.render, List.mem_cons, List.mem_append, List.not_mem_nil, or_false] at h
    rcases h with rfl | (h | rfl | rfl) | h
    · decide
    · exact not_control_of_mem_toDigits (by decide) (by decide) c h
    · decide
    · decide
    · exact not_control_of_mem_toDigits (by decide) (by decide) c h

theorem not_control_of_mem_rowAt {field : Option Field} {depth : Nat} {n : Node} {p : List Nat} :
    ∀ c ∈ rowAt field depth n p, ¬ IsControl c := by
  rw [rowAt]
  split
  · exact fun c hc => absurd hc List.not_mem_nil
  · exact not_control_of_mem_row

/-- The lines of an outline are its rows. -/
theorem lines_outline (n : Node) : lines (StyledText.plain n.outline) =
    n.paths.map fun p => rowAt none 0 n p ++ ['\n'] := by
  rw [outline, plain_outlineFrom, lines_flatMap, List.map_map]
  · rfl
  · intro r hr hfeed
    obtain ⟨p, -, rfl⟩ := List.mem_map.1 hr
    exact not_control_of_mem_rowAt _ hfeed (by decide)

/-- A plain outline has no escape characters. -/
theorem escape_not_mem_outline (n : Node) : '\x1b' ∉ StyledText.plain n.outline := by
  rw [outline, plain_outlineFrom]
  intro h
  obtain ⟨r, hr, h⟩ := List.mem_flatMap.1 h
  obtain ⟨p, -, rfl⟩ := List.mem_map.1 hr
  rcases List.mem_append.1 h with h | h
  · exact not_control_of_mem_rowAt _ h (by decide)
  · exact absurd h (by decide)

/-! ## The whole -/

/-- The walk through `n` and its outline are in pre-order. -/
structure FollowsPreorder (n : Node) : Prop where
  descendants_eq : n.descendants = n.preorder
  /-- The walk ends after as many nodes as there are. -/
  length_eq : n.descendants.length = n.size
  /-- Different places in the order have different paths, and those before come first. -/
  ordered : n.paths.Pairwise (· < ·)
  /-- Every path that leads to a node is there. -/
  mem_paths : ∀ p, p ∈ n.paths ↔ (below? none n p).isSome = true
  /-- The walk visits the ends of the paths in order. -/
  visits : n.descendants.map some = n.paths.map fun p => (below? none n p).map (·.2)
  /-- The lines are the rows of the paths in order. -/
  lines_eq : lines (StyledText.plain n.outline) =
    n.paths.map fun p => rowAt none 0 n p ++ ['\n']
  colours : StyledText.stripEscapes (StyledText.ansi n.outline) = StyledText.plain n.outline

end Node

/-- **Outlines and traversals.**  The walk through a tree is its pre-order, which visits the end of each
path once and in lexicographic order.  The outline has one line for each path in the same order, which
shows the node at its depth with the field that it fills; its escape sequences can be taken away. -/
theorem outline_follows_preorder (n : Node) : n.FollowsPreorder where
  descendants_eq := n.descendants_eq_preorder
  length_eq := by
    rw [Node.descendants, Node.length_walk, Node.stackSize, Node.stackSize, Nat.add_zero]
  ordered := n.pairwise_paths
  mem_paths _ := Node.mem_paths_iff
  visits := by rw [Node.descendants_eq_preorder, Node.map_preorder none]
  lines_eq := n.lines_outline
  colours := StyledText.stripEscapes_ansi n.escape_not_mem_outline

end PieSyntax
