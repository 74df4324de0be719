import Mathlib.Data.List.Forall2
import SExprLayout.Layout.Basic

/-!
# Line ends at two widths

Two layouts of one expression with the same indent size but different maximum widths keep the same depth all along,
but their running widths drift apart: a nested list may start over in one and not in the other.  A `Coupling` is a
relation between the running widths that every step of both layouts keeps and that is strong enough for the narrow
layout to break wherever the wide one does; `Coupling.layout` carries it through an expression.

At twice the maximum width or more, the running width of the wide layout never exceeds that of the narrow one by more
than half of the wide maximum.  So the wide layout is the narrow one with some line ends replaced by spaces
(`pieces_of_doubled_width`).
-/

namespace SExprLayout

/-- The same piece, or a line end in place of a space. -/
inductive Piece.BreaksMore : Piece → Piece → Prop
  | same (piece : Piece) : BreaksMore piece piece
  | broken (indentation : Nat) : BreaksMore (newline indentation) space

theorem Piece.breaksMore_self {pieces : List Piece} : List.Forall₂ Piece.BreaksMore pieces pieces := by
  induction pieces with
  | nil => exact .nil
  | cons piece pieces ih => exact .cons (.same piece) ih

/-- Fewer line ends among the pieces are fewer in the text. -/
theorem Piece.BreaksMore.count_le {pieces pieces' : List Piece} (h : List.Forall₂ BreaksMore pieces pieces') :
    (textAll pieces').toList.count '\n' ≤ (textAll pieces).toList.count '\n' := by
  induction h with
  | nil => exact Nat.le_refl _
  | @cons piece piece' pieces pieces' h _ ih =>
    have first : piece'.text.toList.count '\n' ≤ piece.text.toList.count '\n' := by
      cases h with
      | same => exact Nat.le_refl _
      | broken =>
        rw [show space.text.toList.count '\n' = 0 by decide]
        exact Nat.zero_le _
    rw [textAll_cons, textAll_cons, String.toList_append, String.toList_append, List.count_append, List.count_append]
    exact Nat.add_le_add first ih

/-- A layout that breaks before a child wherever another one does, and indents it alike, has the same before it, or a
line end in place of a space. -/
theorem Expr.separator_breaksMore {narrow wide : Settings} {projected projected' : Int} {cursor cursor' : Cursor}
    {child : Expr} (columns : cursor.padding narrow + narrow.indentSize = cursor'.padding wide + wide.indentSize)
    (breaks : Breaks wide projected' cursor' child → Breaks narrow projected cursor child) :
    List.Forall₂ Piece.BreaksMore (separator narrow projected cursor child)
      (separator wide projected' cursor' child) := by
  unfold separator
  by_cases isNil : child.isNil
  · rw [if_pos isNil, if_pos isNil]
    exact .nil
  rw [if_neg isNil, if_neg isNil]
  by_cases wideBreaks : Breaks wide projected' cursor' child
  · rw [if_pos wideBreaks, if_pos (breaks wideBreaks), columns]
    exact Piece.breaksMore_self
  rw [if_neg wideBreaks]
  split
  · exact .cons (.broken _) .nil
  · exact Piece.breaksMore_self

/-- The width from which the children of a nested list are laid out. -/
def Settings.settled (settings : Settings) (width padding : Int) (size : Nat) : Int :=
  if settings.maxWidth / 2 < width + padding + size then padding else width

private theorem Cursor.settle_eq (settings : Settings) (cursor : Cursor) (size : Nat) :
    cursor.settle settings (cursor.projected settings size) =
      ⟨if 1 < cursor.depth then settings.settled cursor.width (cursor.padding settings) size else cursor.width,
        cursor.depth⟩ := by
  unfold settle projected Settings.settled
  by_cases nested : 1 < cursor.depth
  · simp only [nested, and_true, if_true]
    split <;> rfl
  · simp only [nested, and_false, if_false]

/-- A relation between the running widths of a narrow and a wide layout that both keep, so that the narrow one breaks
wherever the wide one does. -/
structure Coupling (narrow wide : Settings) (R : Int → Int → Prop) : Prop where
  sameIndent : narrow.indentSize = wide.indentSize
  nonneg : 0 ≤ wide.indentSize
  advance : ∀ {v v' : Int}, R v v' → ∀ length : Nat, R (v + length) (v' + length)
  settle : ∀ {v v' : Int}, R v v' → ∀ padding : Int, 0 ≤ padding → ∀ size : Nat,
    R (narrow.settled v padding size) (wide.settled v' padding size)
  breaks : ∀ {v v' : Int}, R v v' → ∀ more : Int, 0 ≤ more → wide.maxWidth < v' + more → narrow.maxWidth < v + more

/-- The cursors have the same depth, and their widths are related. -/
structure Cursor.Coupled (R : Int → Int → Prop) (cursor cursor' : Cursor) : Prop where
  width : R cursor.width cursor'.width
  depth : cursor.depth = cursor'.depth

namespace Coupling

variable {narrow wide : Settings} {R : Int → Int → Prop} {cursor cursor' : Cursor}

private theorem padding_eq (c : Coupling narrow wide R) (h : cursor.Coupled R cursor') :
    cursor.padding narrow = cursor'.padding wide := by
  rw [Cursor.padding, Cursor.padding, h.depth, c.sameIndent]

/-- The cursors inside a list that begins at coupled cursors are coupled. -/
theorem coupled_settle (c : Coupling narrow wide R) (h : cursor.Coupled R cursor') (size : Nat) :
    (cursor.settle narrow (cursor.projected narrow size)).Coupled R
      (cursor'.settle wide (cursor'.projected wide size)) := by
  rw [Cursor.settle_eq, Cursor.settle_eq, ← padding_eq c h, ← h.depth]
  refine ⟨?_, rfl⟩
  by_cases nested : 1 < cursor.depth
  · have padding : 0 ≤ cursor.padding narrow := cursor.padding_nonneg (c.sameIndent ▸ c.nonneg)
    simp only [nested, if_true]
    exact c.settle h.width _ padding size
  · simp only [nested, if_false]
    exact h.width

/-- The projected widths of a list are related as far as breaking goes. -/
private theorem coupled_projected (c : Coupling narrow wide R) (h : cursor.Coupled R cursor') (size : Nat) :
    ∀ more : Int, 0 ≤ more → wide.maxWidth < cursor'.projected wide size + more →
      narrow.maxWidth < cursor.projected narrow size + more := by
  intro more nonneg wideBreaks
  have padding := padding_eq c h
  have := cursor'.padding_nonneg c.nonneg
  have := c.breaks h.width (cursor'.padding wide + size + more) (by omega)
  unfold Cursor.projected at wideBreaks ⊢
  omega

/-- The narrow layout has a line end before a child if the wide one has. -/
private theorem breaksMore_separator (c : Coupling narrow wide R) (h : cursor.Coupled R cursor')
    {projected projected' : Int}
    (breaks : ∀ more : Int, 0 ≤ more → wide.maxWidth < projected' + more → narrow.maxWidth < projected + more)
    (child : Expr) :
    List.Forall₂ Piece.BreaksMore (Expr.separator narrow projected cursor child)
      (Expr.separator wide projected' cursor' child) := by
  have padding := padding_eq c h
  have more : 0 ≤ cursor'.padding wide + child.size :=
    Int.add_nonneg (cursor'.padding_nonneg c.nonneg) (Int.natCast_nonneg _)
  refine Expr.separator_breaksMore (by rw [padding, c.sameIndent]) fun wideBreaks => ?_
  have := breaks _ more
  unfold Expr.Breaks at wideBreaks ⊢
  omega

mutual

/-- Two coupled layouts of an expression break in the same places, but for some more line ends in the narrow one. -/
theorem layout (c : Coupling narrow wide R) (e : Expr) {cursor cursor' : Cursor} (h : cursor.Coupled R cursor') :
    List.Forall₂ Piece.BreaksMore (e.layout narrow cursor).pieces (e.layout wide cursor').pieces ∧
      (e.layout narrow cursor).cursor.Coupled R (e.layout wide cursor').cursor := by
  match e with
  | .atom a => exact ⟨Piece.breaksMore_self, c.advance h.width a.length, h.depth⟩
  | .nil => exact ⟨.nil, h.width, congrArg (· - 1) h.depth⟩
  | .list [] => exact ⟨Piece.breaksMore_self, h⟩
  | .list (first :: rest) =>
    have deeper : cursor.deeper.Coupled R cursor'.deeper := ⟨h.width, congrArg (· + 1) h.depth⟩
    have settled := coupled_settle c deeper (Expr.sizeAll (first :: rest))
    have head := layout c first settled
    have tail := layoutRest c rest head.2 (coupled_projected c deeper (Expr.sizeAll (first :: rest)))
    exact ⟨.cons (.same _) (List.rel_append (List.rel_append head.1 tail.1) Piece.breaksMore_self), tail.2⟩

theorem layoutRest (c : Coupling narrow wide R) (children : List Expr) {cursor cursor' : Cursor}
    (h : cursor.Coupled R cursor') {projected projected' : Int}
    (breaks : ∀ more : Int, 0 ≤ more → wide.maxWidth < projected' + more → narrow.maxWidth < projected + more) :
    List.Forall₂ Piece.BreaksMore (Expr.layoutRest narrow projected children cursor).pieces
        (Expr.layoutRest wide projected' children cursor').pieces ∧
      (Expr.layoutRest narrow projected children cursor).cursor.Coupled R
        (Expr.layoutRest wide projected' children cursor').cursor := by
  match children with
  | [] => exact ⟨.nil, h⟩
  | child :: rest =>
    have head := layout c child h
    have tail := layoutRest c rest head.2 breaks
    have separator := breaksMore_separator c h breaks child
    exact ⟨List.rel_append (List.rel_append separator head.1) tail.1, tail.2⟩

end

end Coupling

/-- At twice the width or more, a running width is ahead of the narrow one by at most half the wide maximum. -/
private theorem coupling_of_double {indentSize width width' : Int} (hi : 0 ≤ indentSize) (hw : 0 ≤ width)
    (double : 2 * width ≤ width') :
    Coupling ⟨width, indentSize⟩ ⟨width', indentSize⟩ fun v v' => 0 ≤ v ∧ v' ≤ v + width' / 2 where
  sameIndent := rfl
  nonneg := hi
  advance h length := by omega
  settle := by
    intro v v' h padding hp size
    unfold Settings.settled
    -- a layout that starts over alone is within half its own maximum of the other
    split <;> split <;> simp only at * <;> omega
  breaks h more hm := by
    simp only
    omega

/-- The expression `(((xxx) x (x) (xx xxx)))`. -/
def drifting : Expr :=
  .list [.list [.list [.atom ⟨"xxx", by decide⟩, .nil], .atom ⟨"x", by decide⟩,
    .list [.atom ⟨"x", by decide⟩, .nil],
    .list [.atom ⟨"xx", by decide⟩, .atom ⟨"xxx", by decide⟩, .nil], .nil], .nil]

/-- At twice the maximum width or more, a layout is the one at the smaller width with some line ends replaced by
spaces, so it has no more of them.  At a width that is only a little greater it may have more. -/
theorem pieces_of_doubled_width (e : Expr) {indentSize width width' : Int} (hi : 0 ≤ indentSize) (hw : 0 ≤ width)
    (double : 2 * width ≤ width') :
    List.Forall₂ Piece.BreaksMore (e.pieces ⟨width, indentSize⟩) (e.pieces ⟨width', indentSize⟩) ∧
      (e.format ⟨width', indentSize⟩).toList.count '\n' ≤ (e.format ⟨width, indentSize⟩).toList.count '\n' ∧
      (drifting.format ⟨15, 1⟩).toList.count '\n' = 1 ∧ (drifting.format ⟨16, 1⟩).toList.count '\n' = 2 := by
  have start : Cursor.start.Coupled (fun v v' => 0 ≤ v ∧ v' ≤ v + width' / 2) Cursor.start := by
    refine ⟨?_, rfl⟩
    simp only [Cursor.start]
    omega
  have pieces := ((coupling_of_double hi hw double).layout e start).1
  refine ⟨pieces, ?_, by decide, by decide⟩
  rw [Expr.format_eq_textAll, Expr.format_eq_textAll]
  exact Piece.BreaksMore.count_le pieces

theorem pieces_of_doubled_width_drifting :
    List.Forall₂ Piece.BreaksMore (drifting.pieces ⟨8, 1⟩) (drifting.pieces ⟨16, 1⟩) :=
  (pieces_of_doubled_width drifting (by decide) (by decide) (by decide)).1

end SExprLayout
