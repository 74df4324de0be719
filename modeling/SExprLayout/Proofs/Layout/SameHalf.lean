import SExprLayout.Proofs.Layout.Monotone
import SExprLayout.Proofs.Layout.Nesting

/-!
# Line ends at two widths with the same half

The maximum width steers a layout in two places: the whole of it decides about line ends, and half of it decides which
lists start over.  Line ends do not move the cursor, so two maximum widths with the same half have the same cursor at
each part of the expression (`Coupling.visitsFrom`, with equality as the relation between the widths), and the greater
one breaks no line that the smaller one does not break.

One more than an even width has the same half.  So going up by one can bring a new line end only from an odd width to
the even one above it (`pieces_of_same_half`).
-/

namespace SExprLayout

/-- The layouts come to the same part, inside the same number of lists, with coupled cursors. -/
structure Expr.Visit.Coupled (R : Int → Int → Prop) (visit visit' : Expr.Visit) : Prop where
  expr : visit.expr = visit'.expr
  level : visit.level = visit'.level
  cursor : visit.cursor.Coupled R visit'.cursor

namespace Coupling

variable {narrow wide : Settings} {R : Int → Int → Prop}

mutual

/-- Two coupled layouts have coupled cursors at each part of the expression. -/
theorem visitsFrom (c : Coupling narrow wide R) (e : Expr) (level : Nat) (before before' : List Piece)
    {cursor cursor' : Cursor} (h : cursor.Coupled R cursor') :
    List.Forall₂ (Expr.Visit.Coupled R) (e.visitsFrom narrow level before cursor)
      (e.visitsFrom wide level before' cursor') := by
  match e with
  | .atom a => exact .cons ⟨rfl, rfl, h⟩ .nil
  | .nil => exact .cons ⟨rfl, rfl, h⟩ .nil
  | .list [] => exact .cons ⟨rfl, rfl, h⟩ .nil
  | .list (first :: rest) =>
    have deeper : cursor.deeper.Coupled R cursor'.deeper := ⟨h.width, congrArg (· + 1) h.depth⟩
    have settled := coupled_settle c deeper (Expr.sizeAll (first :: rest))
    have head := visitsFrom c first (level + 1) (before ++ [.opening]) (before' ++ [.opening]) settled
    have after := (c.layout first settled).2
    exact .cons ⟨rfl, rfl, h⟩ (List.rel_append head (visitsRest c rest (level + 1) _ _ _ _ after))

theorem visitsRest (c : Coupling narrow wide R) (children : List Expr) (level : Nat) (before before' : List Piece)
    (projected projected' : Int) {cursor cursor' : Cursor} (h : cursor.Coupled R cursor') :
    List.Forall₂ (Expr.Visit.Coupled R) (Expr.visitsRest narrow projected children level before cursor)
      (Expr.visitsRest wide projected' children level before' cursor') := by
  match children with
  | [] => exact .nil
  | child :: rest =>
    have head := visitsFrom c child level (before ++ Expr.separator narrow projected cursor child)
      (before' ++ Expr.separator wide projected' cursor' child) h
    have after := (c.layout child h).2
    exact List.rel_append head (visitsRest c rest level _ _ projected projected' after)

end

end Coupling

/-- Two maximum widths with the same half start the same lists over. -/
private theorem coupling_of_same_half {indentSize width width' : Int} (hi : 0 ≤ indentSize) (le : width ≤ width')
    (half : width / 2 = width' / 2) : Coupling ⟨width, indentSize⟩ ⟨width', indentSize⟩ (· = ·) where
  sameIndent := rfl
  nonneg := hi
  advance h length := by rw [h]
  settle := by
    rintro v _ rfl padding - size
    rw [Settings.settled, Settings.settled, half]
  breaks h more _ := by
    simp only
    omega

/-- Two maximum widths with the same half lay an expression out with the same cursor at each part, and the greater one
breaks only where the smaller one does, with the same indentation.  So a line end that one more in width brings is
brought by going from an odd width to the even one. -/
theorem pieces_of_same_half (e : Expr) {indentSize : Int} (hi : 0 ≤ indentSize) :
    (∀ width width' : Int, width ≤ width' → width / 2 = width' / 2 →
      List.Forall₂ (Expr.Visit.Coupled (· = ·)) (e.visits ⟨width, indentSize⟩) (e.visits ⟨width', indentSize⟩) ∧
        List.Forall₂ Piece.BreaksMore (e.pieces ⟨width, indentSize⟩) (e.pieces ⟨width', indentSize⟩)) ∧
      ∀ width : Int,
        ¬ List.Forall₂ Piece.BreaksMore (e.pieces ⟨width, indentSize⟩) (e.pieces ⟨width + 1, indentSize⟩) ∨
          (e.format ⟨width, indentSize⟩).toList.count '\n' < (e.format ⟨width + 1, indentSize⟩).toList.count '\n' →
        width % 2 = 1 := by
  have start : Cursor.start.Coupled (· = ·) Cursor.start := ⟨rfl, rfl⟩
  refine ⟨fun width width' le half => ?_, fun width violated => ?_⟩
  · have c := coupling_of_same_half hi le half
    exact ⟨c.visitsFrom e 0 [] [] start, (c.layout e start).1⟩
  · by_contra even
    have c : Coupling ⟨width, indentSize⟩ ⟨width + 1, indentSize⟩ (· = ·) :=
      coupling_of_same_half hi (by omega) (by omega)
    have pieces : List.Forall₂ Piece.BreaksMore (e.pieces ⟨width, indentSize⟩) (e.pieces ⟨width + 1, indentSize⟩) :=
      (c.layout e start).1
    rcases violated with violated | more
    · exact violated pieces
    · rw [Expr.format_eq_textAll, Expr.format_eq_textAll] at more
      exact absurd (Piece.BreaksMore.count_le pieces) (Nat.not_le_of_lt more)

/-- The widths 14 and 15 have the same half, and from 15 to 16 there is one line end more. -/
theorem pieces_of_same_half_drifting :
    List.Forall₂ Piece.BreaksMore (drifting.pieces ⟨14, 1⟩) (drifting.pieces ⟨15, 1⟩) ∧
      (drifting.format ⟨15, 1⟩).toList.count '\n' < (drifting.format ⟨15 + 1, 1⟩).toList.count '\n' ∧
      (15 : Int) % 2 = 1 := by
  have more : (drifting.format ⟨15, 1⟩).toList.count '\n' < (drifting.format ⟨15 + 1, 1⟩).toList.count '\n' := by
    decide
  obtain ⟨same, odd⟩ := pieces_of_same_half drifting (show (0 : Int) ≤ 1 by decide)
  exact ⟨(same 14 15 (by decide) (by decide)).2, more, odd 15 (.inr more)⟩

end SExprLayout
