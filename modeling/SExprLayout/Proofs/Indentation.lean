import SExprLayout.Proofs.Layout.Wrapped
import SExprLayout.Proofs.RoundTrip

/-!
# The shape of a formatted source

What is read from a source is closed, or a list of closed expressions that lacks its nil (`Expr.shape_of_parse`).  In
both cases the depth of the cursor is the number of lists around the part that is laid out, so the formatted text is
the one-line text with some spaces replaced by line ends, each of them indented by the parentheses that are open at it
(`formatSource_wrapped`).
-/

namespace SExprLayout

namespace Expr

/-- What holds of atoms, and of a list once it holds of the closed expressions in it, holds of what is read from a
source. -/
theorem of_row_of_parse {P : Expr → Prop} (atom : ∀ a, P (.atom a))
    (list : ∀ children, Row (fun child => child.Closed ∧ P child) children → P (.list children))
    {source : List UInt8} {e : Expr} (h : parse source = .ok e) : P e := by
  rcases (shape_of_parse h).2 with closed | ⟨children, -, closed, rfl⟩
  · exact closed.of_row atom list
  · exact list children (row_of_forall_mem fun child mem => ⟨closed child mem, (closed child mem).of_row atom list⟩)

variable {source : List UInt8} {e : Expr}

/-- What is read from a source is written on one line with a space between any two children of a list. -/
theorem textAll_flat_of_parse (h : parse source = .ok e) : Piece.textAll e.flat = e.oneLine :=
  of_row_of_parse textAll_flat_atom (fun _ => textAll_flat_list) h

/-- What is read from a source is indented by the parentheses that are open. -/
theorem indented_of_parse (h : parse source = .ok e) (settings : Settings) (hi : 0 ≤ settings.indentSize) :
    Piece.Indented settings.indentSize 0 (e.pieces settings) := by
  have keeps : KeepsIndented settings e := of_row_of_parse (fun a => (Closed.atom a).indented_layout hi)
    (fun _ => indented_list hi) h
  exact keeps Cursor.start (Int.le_refl 0)

/-- While what is read from a source is laid out, the depth is the number of lists around the part. -/
theorem depth_of_mem_visits (h : parse source = .ok e) (settings : Settings) :
    ∀ visit ∈ e.visits settings, visit.cursor.depth = visit.level := by
  have keeps : KeepsDepth settings e := of_row_of_parse (fun a => (Closed.atom a).keepsDepth)
    (fun _ => keepsDepth_list) h
  exact keeps 0 [] Cursor.start rfl

theorem pieces_ne_nil_of_parse (h : parse source = .ok e) (settings : Settings) : e.pieces settings ≠ [] := by
  have notNil : e.isNil = false := by
    rcases (shape_of_parse h).2 with closed | ⟨children, -, -, rfl⟩
    · exact closed.isNil_eq
    · rfl
  have flat := flat_ne_nil notNil
  rw [← map_unbroken_layout settings e Cursor.start] at flat
  exact fun none => flat (by rw [← pieces, none, List.map_nil])

end Expr

/-- A formatted source is the one-line text of its expression with some spaces replaced by line ends.  Behind each line
end stand as many levels of indentation as there are parentheses open before it, and then a character other than a
space; no line is empty, and none ends in a space.  The layout comes to each part of the expression with the number of
lists around it as the depth, which is the number of parentheses that are open in the text before the part. -/
theorem formatSource_wrapped {source : Argument} {e : Expr} (read : Expr.ofArgument source = .ok e)
    {maxWidth indentSize : Int} (hw : 0 ≤ maxWidth) (hi : 0 ≤ indentSize) :
    ∃ out, formatSource (some (.integer maxWidth)) (some (.integer indentSize)) source = .ok out ∧
      Wrapped e.oneLine.toList out.toList ∧
      (∀ before after, out.toList = before ++ '\n' :: after →
        ∃ (indentation : Nat) (c : Char) (rest : List Char), after = List.replicate indentation ' ' ++ c :: rest ∧
          c ≠ ' ' ∧ indentation = openParentheses before * indentSize) ∧
      (∀ line ∈ out.toList.splitOn '\n', line ≠ [] ∧ line.getLast? ≠ some ' ') ∧
      ∀ visit ∈ e.visits ⟨maxWidth, indentSize⟩,
        visit.before ++ (visit.expr.layout ⟨maxWidth, indentSize⟩ visit.cursor).pieces <+:
            e.pieces ⟨maxWidth, indentSize⟩ ∧
          visit.cursor.depth = visit.level ∧
          openParentheses (Piece.textAll visit.before).toList = visit.level := by
  obtain ⟨bytes, -, parsed⟩ := Expr.ofArgument_eq_ok_iff.1 read
  have spaced : Piece.Spaced (e.pieces ⟨maxWidth, indentSize⟩) := Expr.spaced_layout _ e Cursor.start
  have indented : Piece.Indented indentSize 0 (e.pieces ⟨maxWidth, indentSize⟩) :=
    Expr.indented_of_parse parsed ⟨maxWidth, indentSize⟩ hi
  have clean : ∀ a ∈ (e.pieces ⟨maxWidth, indentSize⟩).flatMap Piece.atoms, a.Clean := by
    rw [Expr.pieces, Expr.atoms_layout]
    exact (Expr.shape_of_parse parsed).1
  have wrapped := Piece.wrapped_textAll (e.pieces ⟨maxWidth, indentSize⟩)
  rw [Expr.pieces, Expr.map_unbroken_layout, Expr.textAll_flat_of_parse parsed, ← Expr.pieces] at wrapped
  refine ⟨Piece.textAll (e.pieces ⟨maxWidth, indentSize⟩), ?_, wrapped, ?_, ?_, ?_⟩
  · rw [formatSource_integer hw hi, read, ← Expr.format_eq_textAll]
    rfl
  · intro before after text
    exact (spaced.around_newline clean indented text).2
  · intro line mem
    exact spaced.of_mem_lines clean (Expr.pieces_ne_nil_of_parse parsed _) indented mem
  · intro visit mem
    have onward := Expr.prefix_of_mem_visitsFrom e mem
    refine ⟨onward, Expr.depth_of_mem_visits parsed _ visit mem, ?_⟩
    have front : visit.before <+: e.pieces ⟨maxWidth, indentSize⟩ := (List.prefix_append _ _).trans onward
    have cleanFront : ∀ a ∈ visit.before.flatMap Piece.atoms, a.Clean := by
      intro a isAtom
      obtain ⟨piece, inFront, among⟩ := List.mem_flatMap.1 isAtom
      exact clean a (List.mem_flatMap.2 ⟨piece, front.subset inFront, among⟩)
    rw [Piece.openParentheses_textAll cleanFront]
    exact Expr.sum_nesting_of_mem_visitsFrom e mem rfl

theorem formatSource_wrapped_unclosed :
    formatSource (some (.integer 3)) (some (.integer 2)) (.text "(a () (b c d)") =
        .ok "(ERROR\n  a\n  ()\n  (b\n    c\n    d))" ∧
      Wrapped "(ERROR a () (b c d))".toList "(ERROR\n  a\n  ()\n  (b\n    c\n    d))".toList := by
  have read : Expr.ofArgument (.text "(a () (b c d)") = .ok (.list [.atom ⟨"ERROR", by decide⟩, .atom ⟨"a", by decide⟩,
      .list [.nil], .list [.atom ⟨"b", by decide⟩, .atom ⟨"c", by decide⟩, .atom ⟨"d", by decide⟩, .nil]]) := by
    decide
  have written : formatSource (some (.integer 3)) (some (.integer 2)) (.text "(a () (b c d)") =
      .ok "(ERROR\n  a\n  ()\n  (b\n    c\n    d))" := by
    decide
  obtain ⟨out, formatted, wrapped, -⟩ :=
    formatSource_wrapped read (by decide : (0 : Int) ≤ 3) (by decide : (0 : Int) ≤ 2)
  obtain rfl := Except.ok.inj (written.symm.trans formatted)
  exact ⟨written, wrapped⟩

end SExprLayout
