/-
# Trees as outlines

One node per line in pre-order, indented by its depth: the field it fills, its kind, the quoted text
of a leaf, and its span.
-/
import PieSyntax.Node.Sexp
import PieSyntax.Styled

namespace PieSyntax.Node

/-- What stands after the kind: the quoted text of a leaf. -/
def outlineText : Option (List Char) → StyledText
  | none => []
  | some text => [.style { colour := some .green }, .text (' ' :: Text.quoted text), .reset]

/-- What stands before the kind: the field that the node fills. -/
def outlineField : Option Field → StyledText
  | none => []
  | some field => [.style { colour := some .cyan }, .text (fieldLabel (some field))]

/-- The line for one node at the given depth. -/
def outlineLine (field : Option Field) (depth : Nat) (n : Node) : StyledText :=
  .text (List.replicate (2 * depth) ' ') :: outlineField field ++
    [.style { bold := true }, .text n.kind.name, .reset] ++ outlineText n.text? ++
    [.style { dimmed := true }, .text (' ' :: n.span.render), .reset, .text ['\n']]

mutual

/-- The lines for a tree whose root fills `field` and stands at `depth`. -/
def outlineFrom (field : Option Field) (depth : Nat) : Node → StyledText
  | leaf kind span text => outlineLine field depth (leaf kind span text)
  | form kind span children =>
    outlineLine field depth (form kind span children) ++ outlineAll (depth + 1) children

/-- The lines for trees whose roots stand side by side at `depth`. -/
def outlineAll (depth : Nat) : List (Option Field × Node) → StyledText
  | [] => []
  | (field, child) :: rest => outlineFrom field depth child ++ outlineAll depth rest

end

/-- The tree as an outline. -/
def outline (n : Node) : StyledText := outlineFrom none 0 n

end PieSyntax.Node
