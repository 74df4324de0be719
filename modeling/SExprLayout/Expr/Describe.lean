import SExprLayout.Expr.Basic

/-!
# One-line descriptions of expressions

The description of an expression spells its structure out: atoms with their quoted text, nil by its name, and the
children of a list between parentheses, separated by commas; an only child is followed by a comma too.
-/

namespace SExprLayout.Expr

/-- Descriptions between parentheses. -/
def parenthesized : List String → String
  | [] => "()"
  | [only] => "(" ++ only ++ ",)"
  | items => "(" ++ String.intercalate ", " items ++ ")"

mutual

/-- The structure of an expression in one line. -/
def describe : Expr → String
  | atom a => "Atom(text=" ++ Quoted.quote a.text ++ ")"
  | nil => "Nil()"
  | list children => "List(children=" ++ parenthesized (describeAll children) ++ ")"

/-- The descriptions of expressions in a row. -/
def describeAll : List Expr → List String
  | [] => []
  | child :: rest => child.describe :: describeAll rest

end

theorem describeAll_eq_map (children : List Expr) : describeAll children = children.map describe := by
  induction children with
  | nil => rfl
  | cons child rest ih => rw [describeAll, ih, List.map_cons]

end SExprLayout.Expr
