import SExprLayout.Proofs.Indentation
import SExprLayout.Proofs.Layout.Lines

/-!
# The size of what is written

The size of an expression is added up over the expression alone, without settings or a cursor.  A layout writes each
atom once, so for all settings the size is the number of characters in those writes that are the text of an atom
(`Expr.sum_length_atomWrites`), and the text of an expression is at least as long as the expression is large.

All other writes consist of spaces, line ends and parentheses.  If the atoms are clean, then none of these occurs in
them, and the size can be counted off the text (`Expr.countP_format`).  What is read back from a layout is the closed
form of the expression, which has the same atoms and so the same size (`Expr.size_normalize`).
-/

namespace SExprLayout

/-- The characters that stand around the atoms of a layout. -/
def markup : List Char := [' ', '\n', '(', ')']

namespace Piece

/-- The piece is an atom. -/
def isAtom : Piece → Bool
  | atom _ => true
  | _ => false

/-- The writes of the atoms among pieces have the atoms' characters. -/
theorem sum_length_writes_atoms (pieces : List Piece) :
    (((pieces.filter isAtom).flatMap writes).map String.length).sum = lengthAll pieces := by
  induction pieces with
  | nil => rfl
  | cons piece pieces ih =>
    rw [← List.singleton_append, List.filter_append, List.flatMap_append, List.map_append, List.sum_append, ih,
      lengthAll_append]
    cases piece <;> rfl

theorem sum_length_writes_filter_le (p : Piece → Bool) (pieces : List Piece) :
    (((pieces.filter p).flatMap writes).map String.length).sum ≤ ((pieces.flatMap writes).map String.length).sum := by
  induction pieces with
  | nil => exact Nat.le_refl 0
  | cons piece pieces ih =>
    rw [List.filter_cons, List.flatMap_cons, List.map_append, List.sum_append]
    split
    · rw [List.flatMap_cons, List.map_append, List.sum_append]
      exact Nat.add_le_add_left ih _
    · exact Nat.le_add_left_of_le ih

/-- A clean atom has no character of the markup, and any other piece has no other character. -/
private theorem countP_text {piece : Piece} (clean : ∀ a ∈ piece.atoms, a.Clean) :
    piece.text.toList.countP (fun c => c ∉ markup) = (piece.atoms.map Atom.length).sum := by
  cases piece with
  | atom a =>
    have none : ∀ c ∈ a.text.toList, decide (c ∉ markup) = true := by
      intro c mem
      have := clean a List.mem_cons_self c mem
      simp only [delimiters, List.mem_cons, not_or] at this
      simp [markup, this]
    rw [text_atom, List.countP_eq_length.2 none]
    rfl
  | newline indentation =>
    rw [toList_text_newline, List.countP_eq_zero.2]
    · rfl
    · simp [markup]
  | _ => decide

theorem countP_textAll {pieces : List Piece} (clean : ∀ a ∈ pieces.flatMap atoms, a.Clean) :
    (textAll pieces).toList.countP (fun c => c ∉ markup) = lengthAll pieces := by
  induction pieces with
  | nil => rfl
  | cons piece pieces ih =>
    rw [List.flatMap_cons, List.forall_mem_append] at clean
    rw [textAll_cons, String.toList_append, List.countP_append, countP_text clean.1, ih clean.2, lengthAll, lengthAll,
      List.flatMap_cons, List.map_append, List.sum_append]

end Piece

namespace Expr

/-! ### The writes of atoms -/

/-- The writes of a layout that are the text of an atom. -/
def atomWrites (settings : Settings) (e : Expr) : List String :=
  ((e.pieces settings).filter Piece.isAtom).flatMap Piece.writes

theorem sum_length_atomWrites (settings : Settings) (e : Expr) :
    ((e.atomWrites settings).map String.length).sum = e.size := by
  rw [atomWrites, Piece.sum_length_writes_atoms, pieces, lengthAll_layout]

/-- No text is shorter than its expression is large. -/
theorem size_le_length_format (settings : Settings) (e : Expr) : e.size ≤ (e.format settings).length := by
  rw [format, String.length_join, writes, ← sum_length_atomWrites settings, atomWrites]
  exact Piece.sum_length_writes_filter_le _ _

/-- With clean atoms, the size is the number of characters that are not markup. -/
theorem countP_format {e : Expr} (clean : e.Clean) (settings : Settings) :
    (e.format settings).toList.countP (fun c => c ∉ markup) = e.size := by
  have atoms : ∀ a ∈ (e.pieces settings).flatMap Piece.atoms, a.Clean := by
    rw [pieces, atoms_layout]
    exact clean
  rw [format_eq_textAll, Piece.countP_textAll atoms, pieces, lengthAll_layout]

/-! ### The closed form -/

mutual

theorem size_normalize (e : Expr) : e.normalize.size = e.size := by
  match e with
  | atom a => rfl
  | nil => rfl
  | list children =>
    rw [normalize, size, sizeAll_append, sizeAll_normalizeAll children]
    rfl

theorem sizeAll_normalizeAll (children : List Expr) : sizeAll (normalizeAll children) = sizeAll children := by
  match children with
  | [] => rfl
  | child :: rest =>
    rw [normalizeAll]
    split
    · rename_i h
      rw [sizeAll_normalizeAll rest, isNil_iff.1 h, sizeAll, size, Nat.zero_add]
    · rw [sizeAll, size_normalize child, sizeAll_normalizeAll rest, sizeAll]

end

end Expr

/-- The size of an expression is the number of characters in those writes of a layout that are the text of an atom, for
all settings, so no text is shorter.  If the atoms are clean, it is the number of characters of the text that are
neither spaces nor line ends nor parentheses.  What is read from a source has the size of what is read from its
formatted text. -/
theorem size_of_layout :
    (∀ (e : Expr) (settings : Settings),
      e.size = ((e.atomWrites settings).map String.length).sum ∧
      e.size ≤ (e.format settings).length ∧
      (e.Clean → e.size = (e.format settings).toList.countP fun c => c ∉ [' ', '\n', '(', ')'])) ∧
    ∀ (source : Argument) (e : Expr) (maxWidth indentSize : Option Argument) (settings : Settings),
      Expr.ofArgument source = .ok e → Settings.ofArguments maxWidth indentSize = .ok settings →
      ∃ out again, formatSource maxWidth indentSize source = .ok out ∧ Expr.ofArgument (.text out) = .ok again ∧
        again.size = e.size := by
  refine ⟨fun e settings => ⟨(Expr.sum_length_atomWrites settings e).symm, Expr.size_le_length_format settings e,
    fun clean => (Expr.countP_format clean settings).symm⟩, ?_⟩
  intro source e maxWidth indentSize settings read checked
  obtain ⟨bytes, -, parsed⟩ := Expr.ofArgument_eq_ok_iff.1 read
  have notNil : e ≠ .nil := by
    rintro rfl
    exact Expr.pieces_ne_nil_of_parse parsed settings rfl
  refine ⟨e.format settings, e.normalize, ?_, ?_, Expr.size_normalize e⟩
  · rw [formatSource_of_settings checked, read]
    rfl
  · exact Expr.parse_encode_format notNil (Expr.shape_of_parse parsed).1 settings

/-- An expression with stray nils and negative settings, and the source `(a (λé) b`, of which two characters take two
bytes each, with the default indent size. -/
theorem size_of_layout_unclosed :
    ((Expr.list [.nil, .atom ⟨"λx", by decide⟩, .list [], .nil, .list [.atom ⟨"b", by decide⟩]]).format
        ⟨-7, -1⟩).toList.countP (fun c => c ∉ [' ', '\n', '(', ')']) = 3 ∧
      ∃ out again, formatSource (some (.integer 3)) none (.text "(a (λé) b") = .ok out ∧
        Expr.ofArgument (.text out) = .ok again ∧ again.size = 9 := by
  constructor
  · obtain ⟨-, -, counted⟩ := size_of_layout.1 (.list [.nil, .atom ⟨"λx", by decide⟩, .list [], .nil,
      .list [.atom ⟨"b", by decide⟩]]) ⟨-7, -1⟩
    exact (counted (by decide +kernel)).symm
  · have read : Expr.ofArgument (.text "(a (λé) b") = .ok (.list [.atom ⟨"ERROR", by decide⟩, .atom ⟨"a", by decide⟩,
        .list [.atom ⟨"λé", by decide⟩, .nil], .atom ⟨"b", by decide⟩]) := by
      decide
    exact size_of_layout.2 _ _ _ _ ⟨3, 1⟩ read (by decide)

end SExprLayout
