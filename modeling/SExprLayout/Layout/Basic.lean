import SExprLayout.Layout.Piece
import SExprLayout.Layout.Settings

/-!
# Laying expressions out

An expression is laid out from left to right, and a cursor keeps two numbers on the way: the running width, which
counts the characters of atoms, and the depth.  A list with children raises the depth by one and nil lowers it by
one, so that the depth is back where it was after a list that ends in nil.

When a list with children begins, its projected width is the running width, the padding of its depth and its size.
A nested list that is projected past half the maximum width starts over: the running width becomes the padding.
Before each later child that is not nil stands a separator.  It is a line end if the projected width, the padding
at that place and the child's size go past the maximum width, and a space otherwise.  The first child follows the
opening parenthesis at once.
-/

namespace SExprLayout

/-- Where a layout has got to. -/
structure Cursor where
  width : Int
  depth : Int
  deriving DecidableEq

/-- A row of pieces and the cursor after them. -/
structure Rendering where
  pieces : List Piece
  cursor : Cursor
  deriving DecidableEq

namespace Cursor

/-- The cursor of an empty output. -/
def start : Cursor := ⟨0, 0⟩

/-- The cursor after an atom of the given length. -/
def advance (cursor : Cursor) (length : Nat) : Cursor := { cursor with width := cursor.width + length }

/-- The cursor inside a list that begins here. -/
def deeper (cursor : Cursor) : Cursor := { cursor with depth := cursor.depth + 1 }

/-- The cursor after a closing parenthesis. -/
def shallower (cursor : Cursor) : Cursor := { cursor with depth := cursor.depth - 1 }

/-- The columns to the left of a list at the cursor's depth; the outermost list has none. -/
def padding (settings : Settings) (cursor : Cursor) : Int :=
  if cursor.depth ≤ 0 then 0 else (cursor.depth - 1) * settings.indentSize

/-- The width that a list of the given size is expected to take, from the cursor inside it. -/
def projected (settings : Settings) (size : Nat) (cursor : Cursor) : Int :=
  cursor.width + cursor.padding settings + size

/-- The cursor from which the children of a list with the given projected width are laid out. -/
def settle (settings : Settings) (projected : Int) (cursor : Cursor) : Cursor :=
  if settings.maxWidth / 2 < projected ∧ 1 < cursor.depth then { cursor with width := cursor.padding settings }
  else cursor

theorem padding_nonneg {settings : Settings} (h : 0 ≤ settings.indentSize) (cursor : Cursor) :
    0 ≤ cursor.padding settings := by
  unfold padding
  split
  · exact Int.le_refl 0
  · exact Int.mul_nonneg (by omega) h

end Cursor

namespace Expr

/-- A child goes to a line of its own in a list with the given projected width. -/
def Breaks (settings : Settings) (projected : Int) (cursor : Cursor) (child : Expr) : Prop :=
  settings.maxWidth < projected + cursor.padding settings + child.size

instance (settings : Settings) (projected : Int) (cursor : Cursor) (child : Expr) :
    Decidable (Breaks settings projected cursor child) := inferInstanceAs (Decidable (_ < _))

/-- What stands before a child that is not the first. -/
def separator (settings : Settings) (projected : Int) (cursor : Cursor) (child : Expr) : List Piece :=
  if child.isNil then []
  else if Breaks settings projected cursor child then
    [.newline (cursor.padding settings + settings.indentSize).toNat]
  else [.space]

mutual

/-- Lays an expression out from a cursor. -/
def layout (settings : Settings) : Expr → Cursor → Rendering
  | atom a, cursor => ⟨[.atom a], cursor.advance a.length⟩
  | nil, cursor => ⟨[], cursor.shallower⟩
  | list [], cursor => ⟨[.empty], cursor⟩
  | list (first :: rest), cursor =>
    let projected := cursor.deeper.projected settings (sizeAll (first :: rest))
    let head := layout settings first (cursor.deeper.settle settings projected)
    let tail := layoutRest settings projected rest head.cursor
    ⟨.opening :: head.pieces ++ tail.pieces ++ [.closing], tail.cursor⟩

/-- Lays the later children of a list out, each after its separator. -/
def layoutRest (settings : Settings) (projected : Int) : List Expr → Cursor → Rendering
  | [], cursor => ⟨[], cursor⟩
  | child :: rest, cursor =>
    let head := layout settings child cursor
    let tail := layoutRest settings projected rest head.cursor
    ⟨separator settings projected cursor child ++ head.pieces ++ tail.pieces, tail.cursor⟩

end

/-- The pieces of an expression on an empty output. -/
def pieces (settings : Settings) (e : Expr) : List Piece := (layout settings e Cursor.start).pieces

/-- The texts that an expression is written as, one for each write. -/
def writes (settings : Settings) (e : Expr) : List String := (pieces settings e).flatMap Piece.writes

/-- The text of an expression. -/
def format (settings : Settings) (e : Expr) : String := String.join (writes settings e)

theorem layoutRest_append (settings : Settings) (projected : Int) (before after : List Expr) (cursor : Cursor) :
    layoutRest settings projected (before ++ after) cursor =
      ⟨(layoutRest settings projected before cursor).pieces ++
        (layoutRest settings projected after (layoutRest settings projected before cursor).cursor).pieces,
       (layoutRest settings projected after (layoutRest settings projected before cursor).cursor).cursor⟩ := by
  induction before generalizing cursor with
  | nil => rfl
  | cons child before ih => simp only [List.cons_append, layoutRest, ih, List.append_assoc]

theorem format_eq_textAll (settings : Settings) (e : Expr) : format settings e = Piece.textAll (pieces settings e) :=
  (Piece.textAll_eq_join_writes _).symm

end Expr

end SExprLayout
