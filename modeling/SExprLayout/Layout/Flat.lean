import SExprLayout.Layout.Basic

/-!
# The one-line layout

On a single line, an atom is written as its text, nil as nothing, a list without children as a pair of
parentheses, and any other list as its children between parentheses, with a space before each child that is neither
the first nor nil.

The settings decide about line ends and nothing else: a layout whose line ends are replaced by spaces is the
one-line layout, from any cursor (`map_unbroken_layout`).
-/

namespace SExprLayout

/-- A space in place of a line end. -/
def Piece.unbroken : Piece → Piece
  | newline _ => space
  | piece => piece

namespace Expr

mutual

/-- The pieces of an expression on one line. -/
def flat : Expr → List Piece
  | atom a => [.atom a]
  | nil => []
  | list [] => [.empty]
  | list (first :: rest) => .opening :: flat first ++ flatRest rest ++ [.closing]

/-- The pieces of the later children of a list on one line, each after its space. -/
def flatRest : List Expr → List Piece
  | [] => []
  | child :: rest => (if child.isNil then [] else [.space]) ++ flat child ++ flatRest rest

end

theorem map_unbroken_separator (settings : Settings) (projected : Int) (cursor : Cursor) (child : Expr) :
    (separator settings projected cursor child).map Piece.unbroken = if child.isNil then [] else [.space] := by
  unfold separator
  split
  · rfl
  · split <;> rfl

mutual

theorem map_unbroken_layout (settings : Settings) (e : Expr) (cursor : Cursor) :
    (layout settings e cursor).pieces.map Piece.unbroken = flat e := by
  match e with
  | atom a => rfl
  | nil => rfl
  | list [] => rfl
  | list (first :: rest) =>
    simp only [layout, flat, List.map_append, List.map_cons, List.map_nil, map_unbroken_layout settings first,
      map_unbroken_layoutRest settings _ rest, Piece.unbroken]

theorem map_unbroken_layoutRest (settings : Settings) (projected : Int) (children : List Expr) (cursor : Cursor) :
    (layoutRest settings projected children cursor).pieces.map Piece.unbroken = flatRest children := by
  match children with
  | [] => rfl
  | child :: rest =>
    simp only [layoutRest, flatRest, List.map_append, map_unbroken_separator, map_unbroken_layout settings child,
      map_unbroken_layoutRest settings _ rest]

end

end Expr

end SExprLayout
