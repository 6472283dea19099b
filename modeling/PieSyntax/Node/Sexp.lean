/-
# Trees as S-expressions

A node in parentheses: its kind, the quoted text of a leaf, and the children, each after the name of
the field it fills.
-/
import PieSyntax.Node
import PieSyntax.Text.Quoted

namespace PieSyntax.Node

/-- What stands before a child: the name of its field and a colon. -/
def fieldLabel : Option Field → List Char
  | none => []
  | some field => field.name ++ [':', ' ']

mutual

/-- The tree as an S-expression on one line. -/
def sexp : Node → List Char
  | leaf kind _ text => '(' :: kind.name ++ ' ' :: Text.quoted text ++ [')']
  | form kind _ children => '(' :: kind.name ++ sexpAll children ++ [')']

/-- The children, each after a blank. -/
def sexpAll : List (Option Field × Node) → List Char
  | [] => []
  | (field, child) :: rest => ' ' :: fieldLabel field ++ child.sexp ++ sexpAll rest

end

end PieSyntax.Node
