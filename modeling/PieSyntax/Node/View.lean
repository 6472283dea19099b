/-
# Typed views

The parts of a form by name.  A view is there exactly when the node is of its kind and has the parts
that the kind cannot lack.
-/
import PieSyntax.Node

namespace PieSyntax

/-- A claim: a name and its type. -/
structure Claim where
  identifier : Node
  type : Node

/-- A definition: a name and its body. -/
structure Define where
  identifier : Node
  body : Node

/-- A lambda: its arguments and its body. -/
structure Lambda where
  arguments : List Node
  body : Node

/-- An application: a function and its arguments. -/
structure Application where
  function : Node
  arguments : List Node

/-- A function type: its domain and the types after it. -/
structure FunctionType where
  domain : Node
  codomain : List Node

namespace Node

/-- The node as a claim. -/
def claim? (n : Node) : Option Claim :=
  if n.kind = .form .claim then do
    return ⟨← n.field? .identifier, ← n.field? .type⟩
  else none

/-- The node as a definition. -/
def define? (n : Node) : Option Define :=
  if n.kind = .form .define then do
    return ⟨← n.field? .identifier, ← n.field? .body⟩
  else none

/-- The node as a lambda. -/
def lambda? (n : Node) : Option Lambda :=
  if n.kind = .form .lambda then do
    return ⟨n.fieldsOf .arguments, ← n.field? .body⟩
  else none

/-- The node as an application. -/
def application? (n : Node) : Option Application :=
  if n.kind = .form .application then do
    return ⟨← n.field? .function, n.fieldsOf .arguments⟩
  else none

/-- The node as a function type. -/
def functionType? (n : Node) : Option FunctionType :=
  if n.kind = .form .functionType then do
    return ⟨← n.field? .domain, n.fieldsOf .codomain⟩
  else none

end Node

/-- The name claimed. -/
def Claim.name (c : Claim) : List Char := c.identifier.text?.getD []

/-- The name defined. -/
def Define.name (d : Define) : List Char := d.identifier.text?.getD []

/-- The names of the arguments. -/
def Lambda.argumentNames (l : Lambda) : List (List Char) := l.arguments.filterMap Node.text?

end PieSyntax
