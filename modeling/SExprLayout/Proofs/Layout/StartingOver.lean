import SExprLayout.Proofs.Layout.Monotone
import SExprLayout.Proofs.OneLine

/-!
# Lists that start over

A list that starts over lays its children out from its padding, whatever the running width was at which it began.  That
width is still in the projected width, which was taken before, and the separators between the children of the list are
chosen by it.  So a layout of the list is taken apart into its children (`Expr.segments`): each has a separator, which
looks at the projected width, and pieces of its own, which do not, and neither does the cursor
(`Expr.layoutRest_eq_segments`).

A greater projected width turns spaces into line ends and never the other way round (`Expr.breaksMore_segments`).  So a
list that starts over is laid out behind a greater running width with the same pieces inside its children, perhaps with
more line ends between them, and the layout goes on from the same cursor (`Expr.layout_of_startsOver`).
-/

namespace SExprLayout

/-- A later child of a list in a layout: what stands before it, and its own pieces. -/
structure Segment where
  separator : List Piece
  pieces : List Piece

namespace Segment

/-- The pieces of segments in a row. -/
def joined (row : List Segment) : List Piece := row.flatMap fun segment => segment.separator ++ segment.pieces

/-- The pieces of the child are the same, and before it stands the same, or a line end in place of a space. -/
structure BreaksMore (segment segment' : Segment) : Prop where
  pieces : segment.pieces = segment'.pieces
  separator : List.Forall₂ Piece.BreaksMore segment.separator segment'.separator

end Segment

namespace Cursor

variable {settings : Settings} {cursor : Cursor}

/-- The padding of a list is that of the depth before it. -/
theorem padding_deeper (nonneg : 0 ≤ cursor.depth) :
    cursor.deeper.padding settings = cursor.depth * settings.indentSize := by
  rw [padding, deeper, if_neg (by simp only; omega), Int.add_sub_cancel]

/-- Whether a nested list starts over, from what is known before it. -/
theorem startsOver_iff (nested : 1 ≤ cursor.depth) {size : Nat} :
    cursor.StartsOver settings size ↔
      settings.maxWidth / 2 < cursor.width + cursor.depth * settings.indentSize + size := by
  have deeperDepth : 1 < cursor.deeper.depth := Int.lt_add_one_of_le nested
  rw [StartsOver, projected, padding_deeper (by omega)]
  exact and_iff_left deeperDepth

/-- The cursor inside a list that starts over tells nothing of the running width before the list. -/
theorem settle_of_startsOver {size : Nat} (h : cursor.StartsOver settings size) :
    cursor.deeper.settle settings (cursor.deeper.projected settings size) =
      ⟨cursor.deeper.padding settings, cursor.depth + 1⟩ := if_pos h

end Cursor

namespace Expr

variable {settings : Settings}

/-- The later children of a list in a layout, from the cursor before the first of them. -/
def segments (settings : Settings) (projected : Int) : List Expr → Cursor → List Segment
  | [], _ => []
  | child :: rest, cursor =>
    ⟨separator settings projected cursor child, (layout settings child cursor).pieces⟩ ::
      segments settings projected rest (layout settings child cursor).cursor

/-- The layout of later children is that of their segments, and the cursor goes from one child to the next. -/
theorem layoutRest_eq_segments (settings : Settings) (projected : Int) (children : List Expr) (cursor : Cursor) :
    layoutRest settings projected children cursor =
      ⟨Segment.joined (segments settings projected children cursor),
        children.foldl (fun cursor child => (layout settings child cursor).cursor) cursor⟩ := by
  induction children generalizing cursor with
  | nil => rfl
  | cons child rest ih =>
    rw [layoutRest, ih]
    rfl

/-- A child that breaks in a list with some projected width breaks in one with a greater projected width. -/
theorem breaksMore_segments {projected projected' : Int} (le : projected ≤ projected') (children : List Expr)
    (cursor : Cursor) :
    List.Forall₂ Segment.BreaksMore (segments settings projected' children cursor)
      (segments settings projected children cursor) := by
  induction children generalizing cursor with
  | nil => exact .nil
  | cons child rest ih =>
    refine .cons ⟨rfl, separator_breaksMore rfl fun breaks => ?_⟩ (ih _)
    unfold Breaks at breaks ⊢
    omega

/-- A list that starts over, taken apart into its children. -/
theorem layout_list_of_startsOver {first : Expr} {rest : List Expr} {cursor : Cursor}
    (h : cursor.StartsOver settings (sizeAll (first :: rest))) :
    let head := layout settings first ⟨cursor.deeper.padding settings, cursor.depth + 1⟩
    let row := segments settings (cursor.deeper.projected settings (sizeAll (first :: rest))) rest head.cursor
    layout settings (list (first :: rest)) cursor =
      ⟨.opening :: head.pieces ++ Segment.joined row ++ [.closing],
        rest.foldl (fun cursor child => (layout settings child cursor).cursor) head.cursor⟩ := by
  intro head row
  rw [layout, Cursor.settle_of_startsOver h, layoutRest_eq_segments]

/-- A nested list that starts over is laid out behind any greater running width to the same cursor.  Its first child and
the pieces of each later child are the same, and so is what stands before each later child, unless it is a line end
behind the greater width and a space behind the smaller one. -/
theorem layout_of_startsOver {settings : Settings} (first : Expr) (rest : List Expr) {depth width width' : Int}
    (nested : 1 ≤ depth) (le : width ≤ width')
    (exceeds : settings.maxWidth / 2 < width + depth * settings.indentSize + (list (first :: rest)).size) :
    let head := layout settings first ⟨depth * settings.indentSize, depth + 1⟩
    let row (width : Int) :=
      segments settings (width + depth * settings.indentSize + (list (first :: rest)).size) rest head.cursor
    (layout settings (list (first :: rest)) ⟨width, depth⟩).cursor =
        (layout settings (list (first :: rest)) ⟨width', depth⟩).cursor ∧
      (layout settings (list (first :: rest)) ⟨width, depth⟩).pieces =
        .opening :: head.pieces ++ Segment.joined (row width) ++ [.closing] ∧
      (layout settings (list (first :: rest)) ⟨width', depth⟩).pieces =
        .opening :: head.pieces ++ Segment.joined (row width') ++ [.closing] ∧
      List.Forall₂ Segment.BreaksMore (row width') (row width) := by
  intro head row
  have padding (start : Int) : (Cursor.mk start depth).deeper.padding settings = depth * settings.indentSize :=
    Cursor.padding_deeper (Int.le_trans Int.one_nonneg nested)
  have taken (start : Int) (ge : width ≤ start) :
      layout settings (list (first :: rest)) ⟨start, depth⟩ =
        ⟨.opening :: head.pieces ++ Segment.joined (row start) ++ [.closing],
          rest.foldl (fun cursor child => (layout settings child cursor).cursor) head.cursor⟩ := by
    have startsOver : (Cursor.mk start depth).StartsOver settings (sizeAll (first :: rest)) := by
      rw [Cursor.startsOver_iff nested]
      rw [size] at exceeds
      dsimp only
      omega
    have parts := layout_list_of_startsOver startsOver
    rw [Cursor.projected, padding] at parts
    exact parts
  rw [taken width (Int.le_refl _), taken width' le]
  exact ⟨rfl, rfl, rfl, breaksMore_segments (by omega) rest _⟩

/-- Behind a running width of 4 instead of 1, there is a line end more, and the list in between is the same. -/
theorem layout_of_startsOver_nested :
    let inner : Expr := .list [.atom ⟨"b", by decide⟩, .nil, .atom ⟨"c", by decide⟩, .atom ⟨"dddd", by decide⟩]
    let e : Expr := .list [.atom ⟨"a", by decide⟩, inner, .atom ⟨"ee", by decide⟩, .nil]
    ((e.layout ⟨14, 1⟩ ⟨1, 1⟩).pieces.flatMap Piece.writes =
        ["(", "a", "\n", "  ", "(", "b", " ", "c", "\n", "  ", "dddd", ")", " ", "ee", ")"]) ∧
      ((e.layout ⟨14, 1⟩ ⟨4, 1⟩).pieces.flatMap Piece.writes =
        ["(", "a", "\n", "  ", "(", "b", " ", "c", "\n", "  ", "dddd", ")", "\n", "  ", "ee", ")"]) ∧
      (e.layout ⟨14, 1⟩ ⟨1, 1⟩).cursor = (e.layout ⟨14, 1⟩ ⟨4, 1⟩).cursor ∧
      List.Forall₂ Segment.BreaksMore (Expr.segments ⟨14, 1⟩ 14 [inner, .atom ⟨"ee", by decide⟩, .nil] ⟨2, 2⟩)
        (Expr.segments ⟨14, 1⟩ 11 [inner, .atom ⟨"ee", by decide⟩, .nil] ⟨2, 2⟩) := by
  intro inner e
  obtain ⟨cursor, -, -, row⟩ := @layout_of_startsOver ⟨14, 1⟩ (.atom ⟨"a", by decide⟩)
    [inner, .atom ⟨"ee", by decide⟩, .nil] 1 1 4 (by decide) (by decide) (by decide)
  exact ⟨by decide, by decide, cursor, row⟩

end Expr

end SExprLayout
