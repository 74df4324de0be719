import Mathlib.Algebra.Ring.Nat
import SExprLayout.Proofs.Layout.Content

/-!
# Lines of a layout

The line ends cut a layout into lines.  A line can begin in the middle of a list, close several lists and go on in
one that encloses them, so what is said of lines here is said of all rows of pieces in which no line end stands,
`Fits`, and carried from the front of the layout to its end.

The step is in a list with children: what was laid out of it so far is no larger than the list without the next child,
so if this child stays on the line, then the list and the child once more are within the maximum width
(`fits_layoutRest`).  So the atoms of a line, with the last one counted twice, are within the maximum width if the line
has more than one (`length_of_mem_lines`).
-/

namespace SExprLayout

/-! ### Lengths -/

/-- The number of characters in the atoms of a row of pieces. -/
def Piece.lengthAll (pieces : List Piece) : Nat := ((pieces.flatMap atoms).map Atom.length).sum

theorem Piece.lengthAll_append (before after : List Piece) :
    lengthAll (before ++ after) = lengthAll before + lengthAll after := by
  rw [lengthAll, List.flatMap_append, List.map_append, List.sum_append]
  rfl

namespace Expr

mutual

theorem sum_length_atoms (e : Expr) : (e.atoms.map Atom.length).sum = e.size := by
  match e with
  | atom a => rfl
  | nil => rfl
  | list children => exact sum_length_atomsAll children

theorem sum_length_atomsAll (children : List Expr) : ((atomsAll children).map Atom.length).sum = sizeAll children := by
  match children with
  | [] => rfl
  | child :: rest =>
    rw [atomsAll, List.map_append, List.sum_append, sum_length_atoms child, sum_length_atomsAll rest, sizeAll]

end

theorem lengthAll_layout (settings : Settings) (e : Expr) (cursor : Cursor) :
    Piece.lengthAll (layout settings e cursor).pieces = e.size := by
  rw [Piece.lengthAll, atoms_layout, sum_length_atoms]

/-! ### The running width -/

variable {settings : Settings}

theorem settle_width_nonneg (hi : 0 ≤ settings.indentSize) {cursor : Cursor} (h : 0 ≤ cursor.width)
    (projected : Int) : 0 ≤ (cursor.settle settings projected).width := by
  unfold Cursor.settle
  split
  · exact cursor.padding_nonneg hi
  · exact h

mutual

theorem layout_width_nonneg (hi : 0 ≤ settings.indentSize) (e : Expr) {cursor : Cursor} (h : 0 ≤ cursor.width) :
    0 ≤ (layout settings e cursor).cursor.width := by
  match e with
  | atom a => exact Int.add_nonneg h (Int.natCast_nonneg _)
  | nil => exact h
  | list [] => exact h
  | list (first :: rest) =>
    have deeper : 0 ≤ cursor.deeper.width := h
    have settled := settle_width_nonneg hi deeper (cursor.deeper.projected settings (sizeAll (first :: rest)))
    exact layoutRest_width_nonneg hi rest (layout_width_nonneg hi first settled)

theorem layoutRest_width_nonneg (hi : 0 ≤ settings.indentSize) {projected : Int} (children : List Expr)
    {cursor : Cursor} (h : 0 ≤ cursor.width) : 0 ≤ (layoutRest settings projected children cursor).cursor.width := by
  match children with
  | [] => exact h
  | child :: rest => exact layoutRest_width_nonneg hi rest (layout_width_nonneg hi child h)

end

end Expr

/-! ### Lines and rows -/

namespace Piece

/-- The piece is a line end. -/
def isLineEnd : Piece → Bool
  | newline _ => true
  | _ => false

/-- The lines of a layout, without the line ends. -/
def lines (pieces : List Piece) : List (List Piece) := pieces.splitOnP isLineEnd

/-- No line end stands in the row. -/
def Unbroken (row : List Piece) : Prop := ∀ piece ∈ row, piece.isLineEnd = false

/-- More than one atom, with the last counted twice, are not longer than the limit. -/
def Within (limit : Int) (atoms : List Atom) : Prop :=
  1 < atoms.length → ∀ last ∈ atoms.getLast?, ((atoms.map Atom.length).sum + last.length : Int) ≤ limit

/-- The atoms of each row without a line end are within the limit. -/
def Fits (limit : Int) (pieces : List Piece) : Prop :=
  ∀ row, row <:+: pieces → Unbroken row → Within limit (row.flatMap atoms)

private theorem exists_lines_eq_cons (pieces : List Piece) :
    ∃ first later, lines pieces = first :: later ∧ (first <+: pieces ∧ Unbroken first) ∧
      ∀ line ∈ later, line <:+: pieces ∧ Unbroken line := by
  induction pieces with
  | nil => exact ⟨[], [], rfl, ⟨List.prefix_rfl, nofun⟩, nofun⟩
  | cons piece pieces ih =>
    obtain ⟨first, later, e, ⟨front, unbroken⟩, rows⟩ := ih
    have rows' : ∀ line ∈ later, line <:+: piece :: pieces ∧ Unbroken line := by
      intro line mem
      exact ⟨List.infix_cons (rows line mem).1, (rows line mem).2⟩
    rw [lines, List.splitOnP_cons_eq_if_modifyHead, ← lines, e]
    cases h : piece.isLineEnd with
    | true =>
      refine ⟨[], first :: later, rfl, ⟨List.nil_prefix, nofun⟩, ?_⟩
      rw [List.forall_mem_cons]
      exact ⟨⟨List.infix_cons front.isInfix, unbroken⟩, rows'⟩
    | false =>
      refine ⟨piece :: first, later, rfl, ⟨List.prefix_cons_inj piece |>.2 front, ?_⟩, rows'⟩
      exact List.forall_mem_cons.2 ⟨h, unbroken⟩

theorem unbroken_of_mem_lines {pieces line : List Piece} (h : line ∈ lines pieces) :
    line <:+: pieces ∧ Unbroken line := by
  obtain ⟨first, later, e, ⟨front, unbroken⟩, rows⟩ := exists_lines_eq_cons pieces
  rw [e] at h
  rcases List.mem_cons.1 h with rfl | h
  · exact ⟨front.isInfix, unbroken⟩
  · exact rows line h

variable {limit : Int} {xs ys : List Piece}

theorem fits_of_atoms_le_one (h : (xs.flatMap atoms).length ≤ 1) : Fits limit xs := by
  rintro row ⟨before, after, rfl⟩ _ several
  simp only [List.flatMap_append, List.length_append] at h
  omega

theorem lengthAll_le_of_infix (h : xs <:+: ys) : lengthAll xs ≤ lengthAll ys := by
  obtain ⟨before, after, rfl⟩ := h
  rw [lengthAll_append, lengthAll_append]
  omega

private theorem length_le_of_mem {a : Atom} (h : a ∈ xs.flatMap atoms) : a.length ≤ lengthAll xs := by
  obtain ⟨before, after, e⟩ := List.append_of_mem h
  rw [lengthAll, e, List.map_append, List.sum_append, List.map_cons, List.sum_cons]
  omega

private theorem atoms_eq_nil_or_lengthAll_pos (xs : List Piece) : xs.flatMap atoms = [] ∨ 0 < lengthAll xs := by
  cases e : xs.flatMap atoms with
  | nil => exact .inl rfl
  | cons a rest =>
    have mem : a ∈ xs.flatMap atoms := e ▸ List.mem_cons_self
    exact .inr (Nat.lt_of_lt_of_le a.length_pos (length_le_of_mem mem))

/-- Rows that go on from one part to the next are within the limit if both parts are, with the next counted twice. -/
theorem Fits.append (hx : Fits limit xs) (hy : Fits limit ys)
    (room : 0 < lengthAll xs → 0 < lengthAll ys → (lengthAll xs + 2 * lengthAll ys : Int) ≤ limit) :
    Fits limit (xs ++ ys) := by
  intro row within unbroken
  rcases List.infix_append_iff.1 within with inside | inside | ⟨row₁, row₂, rfl, back, front⟩
  · exact hx row inside unbroken
  · exact hy row inside unbroken
  obtain ⟨unbroken₁, unbroken₂⟩ := List.forall_mem_append.1 unbroken
  rw [List.flatMap_append]
  rcases atoms_eq_nil_or_lengthAll_pos row₁ with none | some₁
  · rw [none, List.nil_append]
    exact hy row₂ front.isInfix unbroken₂
  rcases atoms_eq_nil_or_lengthAll_pos row₂ with none | some₂
  · rw [none, List.append_nil]
    exact hx row₁ back.isInfix unbroken₁
  -- the row has atoms of both parts, so its last atom is one of the next part
  intro _ last isLast
  have nonempty : row₂.flatMap atoms ≠ [] := by
    intro e
    rw [lengthAll, e] at some₂
    exact absurd some₂ (Nat.lt_irrefl 0)
  rw [List.getLast?_append_of_ne_nil _ nonempty] at isLast
  have inXs : lengthAll row₁ ≤ lengthAll xs := lengthAll_le_of_infix back.isInfix
  have inYs : lengthAll row₂ ≤ lengthAll ys := lengthAll_le_of_infix front.isInfix
  have lastInRow : last.length ≤ lengthAll row₂ := length_le_of_mem (List.mem_of_getLast? isLast)
  have enough := room (by omega) (by omega)
  rw [List.map_append, List.sum_append, ← lengthAll, ← lengthAll]
  omega

/-- No row goes on past a line end. -/
theorem Fits.append_newline (hx : Fits limit xs) (hy : Fits limit ys) (indentation : Nat) :
    Fits limit (xs ++ newline indentation :: ys) := by
  intro row within unbroken
  -- what an unbroken row has of the part that begins with the line end is nothing
  have front_eq_nil : ∀ front, front <+: newline indentation :: ys → Unbroken front → front = [] := by
    intro front isFront unbroken
    rcases List.prefix_cons_iff.1 isFront with empty | ⟨later, rfl, -⟩
    · exact empty
    · cases unbroken (newline indentation) List.mem_cons_self
  rcases List.infix_append_iff.1 within with inside | inside | ⟨row₁, row₂, rfl, back, front⟩
  · exact hx row inside unbroken
  · rcases List.infix_cons_iff.1 inside with front | inside
    · rw [front_eq_nil row front unbroken]
      exact nofun
    · exact hy row inside unbroken
  · obtain ⟨unbroken₁, unbroken₂⟩ := List.forall_mem_append.1 unbroken
    rw [front_eq_nil row₂ front unbroken₂, List.append_nil]
    exact hx row₁ back.isInfix unbroken₁

end Piece

namespace Expr

open Piece

variable {settings : Settings}

private theorem lengthAll_separator (projected : Int) (cursor : Cursor) (child : Expr) :
    lengthAll (separator settings projected cursor child) = 0 := by
  unfold separator
  split
  · rfl
  · split <;> rfl

/-- What was laid out of a list fits together with the next child if it is no larger than the list without the child. -/
private theorem fits_child {projected : Int} {cursor : Cursor} (hi : 0 ≤ settings.indentSize) {before : List Piece}
    (fits : Fits settings.maxWidth before) {child : Expr}
    (head : Fits settings.maxWidth (layout settings child cursor).pieces)
    (room : (lengthAll before + child.size : Int) ≤ projected) :
    Fits settings.maxWidth
      (before ++ separator settings projected cursor child ++ (layout settings child cursor).pieces) := by
  have size : lengthAll (layout settings child cursor).pieces = child.size := lengthAll_layout settings child cursor
  have padding : 0 ≤ cursor.padding settings := cursor.padding_nonneg hi
  by_cases isNil : child.isNil
  · have empty : child.size = 0 := by
      rw [isNil_iff.1 isNil]
      rfl
    rw [separator, if_pos isNil, List.append_nil]
    exact fits.append head fun _ some => by omega
  by_cases breaks : Breaks settings projected cursor child
  · rw [separator, if_neg isNil, if_pos breaks, List.append_assoc, List.singleton_append]
    exact fits.append_newline head _
  · rw [separator, if_neg isNil, if_neg breaks]
    have blank : lengthAll [space] = 0 := rfl
    have spaced : Fits settings.maxWidth (before ++ [space]) :=
      fits.append (fits_of_atoms_le_one (Nat.zero_le 1)) fun _ some => by omega
    refine spaced.append head fun _ _ => ?_
    rw [lengthAll_append]
    unfold Breaks at breaks
    omega

mutual

/-- The rows of a layout fit into the maximum width. -/
theorem fits_layout (hi : 0 ≤ settings.indentSize) (e : Expr) {cursor : Cursor} (h : 0 ≤ cursor.width) :
    Fits settings.maxWidth (layout settings e cursor).pieces := by
  match e with
  | atom a => exact fits_of_atoms_le_one (Nat.le_refl 1)
  | nil => exact fits_of_atoms_le_one (Nat.zero_le 1)
  | list [] => exact fits_of_atoms_le_one (Nat.zero_le 1)
  | list (first :: rest) =>
    let projected := cursor.deeper.projected settings (sizeAll (first :: rest))
    let inside := cursor.deeper.settle settings projected
    have deeper : 0 ≤ cursor.deeper.width := h
    have padding : 0 ≤ cursor.deeper.padding settings := cursor.deeper.padding_nonneg hi
    have nonneg : 0 ≤ inside.width := settle_width_nonneg hi deeper projected
    have opened : Fits settings.maxWidth ([opening] ++ (layout settings first inside).pieces) := by
      have alone : Fits settings.maxWidth [opening] := fits_of_atoms_le_one (Nat.zero_le 1)
      have parenthesis : lengthAll [opening] = 0 := rfl
      exact alone.append (fits_layout hi first nonneg) fun some _ => by omega
    have room : (lengthAll ([opening] ++ (layout settings first inside).pieces) + sizeAll rest : Int) ≤ projected := by
      have size : lengthAll ([opening] ++ (layout settings first inside).pieces) = first.size := by
        rw [lengthAll_append, lengthAll_layout]
        exact Nat.zero_add _
      rw [size]
      simp only [projected, Cursor.projected, sizeAll]
      omega
    have children := fits_layoutRest hi rest (layout_width_nonneg hi first nonneg) opened room
    have parenthesis : lengthAll [closing] = 0 := rfl
    exact children.append (fits_of_atoms_le_one (Nat.zero_le 1)) fun _ some => by omega

/-- The later children keep to the maximum width together with what stands before them. -/
theorem fits_layoutRest (hi : 0 ≤ settings.indentSize) {projected : Int} (children : List Expr) {cursor : Cursor}
    (h : 0 ≤ cursor.width) {before : List Piece} (fits : Fits settings.maxWidth before)
    (room : (lengthAll before + sizeAll children : Int) ≤ projected) :
    Fits settings.maxWidth (before ++ (layoutRest settings projected children cursor).pieces) := by
  match children with
  | [] =>
    rw [layoutRest, List.append_nil]
    exact fits
  | child :: rest =>
    rw [sizeAll] at room
    let joined := before ++ separator settings projected cursor child ++ (layout settings child cursor).pieces
    have fitsJoined : Fits settings.maxWidth joined := fits_child hi fits (fits_layout hi child h) (by omega)
    have size : lengthAll joined = lengthAll before + child.size := by
      rw [lengthAll_append, lengthAll_append, lengthAll_separator, lengthAll_layout, Nat.add_zero]
    have later : (lengthAll joined + sizeAll rest : Int) ≤ projected := by omega
    rw [layoutRest, ← List.append_assoc, ← List.append_assoc]
    exact fits_layoutRest hi rest (layout_width_nonneg hi child h) fitsJoined later

end

/-- On a line with more than one atom, the characters of the atoms, with the last one counted twice, are no more than
the maximum width.  So a line whose atoms have more characters holds a single atom. -/
theorem length_of_mem_lines (e : Expr) (hw : 0 ≤ settings.maxWidth) (hi : 0 ≤ settings.indentSize)
    {line : List Piece} (h : line ∈ lines (e.pieces settings)) :
    (1 < (line.flatMap Piece.atoms).length → ∀ last ∈ (line.flatMap Piece.atoms).getLast?,
      (lengthAll line + last.length : Int) ≤ settings.maxWidth) ∧
    (settings.maxWidth < lengthAll line → ∃ a, line.flatMap Piece.atoms = [a]) := by
  obtain ⟨row, unbroken⟩ := unbroken_of_mem_lines h
  have within : Within settings.maxWidth (line.flatMap Piece.atoms) :=
    fits_layout hi e (Int.le_refl 0) line row unbroken
  refine ⟨within, ?_⟩
  intro long
  cases shape : line.flatMap Piece.atoms with
  | nil =>
    rw [lengthAll, shape] at long
    exact absurd long (Int.not_lt.2 hw)
  | cons a rest =>
    cases rest with
    | nil => exact ⟨a, rfl⟩
    | cons b rest =>
      -- with more atoms, the line would keep to the maximum width
      rw [shape] at within
      have fits := within (Nat.succ_lt_succ (Nat.succ_pos _)) _ (List.getLast?_eq_some_getLast (List.cons_ne_nil a _))
      rw [lengthAll, shape] at long
      omega

theorem length_of_mem_lines_closing :
    ∃ line ∈ lines (pieces ⟨9, 1⟩ (list [list [atom ⟨"a", by decide⟩, list [atom ⟨"bcd", by decide⟩, nil], nil],
        atom ⟨"e", by decide⟩, atom ⟨"fgh", by decide⟩, nil])),
      textAll line = "((a (bcd)) e" ∧ (lengthAll line + "e".length : Int) ≤ 9 := by
  -- the line closes two lists and goes on in the one around them
  have mem : [.opening, .opening, .atom ⟨"a", by decide⟩, .space, .opening, .atom ⟨"bcd", by decide⟩, .closing,
      .closing, .space, .atom ⟨"e", by decide⟩] ∈
      lines (pieces ⟨9, 1⟩ (list [list [atom ⟨"a", by decide⟩, list [atom ⟨"bcd", by decide⟩, nil], nil],
        atom ⟨"e", by decide⟩, atom ⟨"fgh", by decide⟩, nil])) := by
    decide
  exact ⟨_, mem, by decide,
    (length_of_mem_lines _ (by decide) (by decide) mem).1 (by decide) ⟨"e", by decide⟩ (by decide)⟩

end Expr

end SExprLayout
