import SExprLayout.Expr.Basic

/-!
# Pieces of a layout

A layout is a row of pieces.  Each is written to the output at one go, except for a line end, which is followed by
the write of its indentation, also when that is empty.
-/

namespace SExprLayout

/-- A part of a written expression: a parenthesis of a list that has children, a list that has none, an atom, or what
stands before a child that stays on the line or goes to the next one. -/
inductive Piece where
  | opening
  | closing
  | empty
  | atom (atom : Atom)
  | space
  | newline (indentation : Nat)
  deriving DecidableEq

namespace Piece

/-- Blanks in a row. -/
def blanks (count : Nat) : String := String.ofList (List.replicate count ' ')

/-- The texts that a piece is written as, one for each write. -/
def writes : Piece → List String
  | opening => ["("]
  | closing => [")"]
  | empty => ["()"]
  | atom a => [a.text]
  | space => [" "]
  | newline indentation => ["\n", blanks indentation]

/-- The text of a piece. -/
def text (piece : Piece) : String := String.join piece.writes

/-- The text of pieces in a row. -/
def textAll (pieces : List Piece) : String := String.join (pieces.map text)

/-- The pieces' texts are those of all their writes. -/
theorem textAll_eq_join_writes (pieces : List Piece) : textAll pieces = String.join (pieces.flatMap writes) := by
  induction pieces with
  | nil => rfl
  | cons piece pieces ih =>
    rw [textAll, List.map_cons, String.join_cons, List.flatMap_cons, String.join_append, ← ih]
    rfl

theorem textAll_nil : textAll [] = "" := rfl

theorem textAll_cons (piece : Piece) (pieces : List Piece) :
    textAll (piece :: pieces) = piece.text ++ textAll pieces := String.join_cons

theorem textAll_append (before after : List Piece) : textAll (before ++ after) = textAll before ++ textAll after := by
  simp only [textAll, List.map_append, String.join_append]

end Piece

end SExprLayout
