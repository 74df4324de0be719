import Mathlib.Algebra.Ring.Int.Defs
import SExprLayout.Layout.Flat
import SExprLayout.Proofs.Expr.Closed

/-!
# Depth and nesting

While an expression is laid out, the cursor is at each of its parts once (`visits`).  The depth of the cursor counts
the lists that were begun and takes one off for each nil, so in general it says little about where the cursor is.  In
a closed expression every list gives its depth back (`Closed.depth_layout`), and then the depth is the number of lists
around the part (`Closed.keepsDepth`).  So the indentation of each line counts the parentheses that are open
there (`Closed.indented_layout`).

What is read from a source is a list whose nil may be missing, but then there is nothing after it.  So all of this is
said of lists of closed expressions, with a nil at the end or without (`Row`).
-/

namespace SExprLayout

/-! ### Open parentheses -/

namespace Piece

/-- By how many open parentheses there are more after a piece. -/
def nesting : Piece → Int
  | opening => 1
  | closing => -1
  | _ => 0

/-- Each line end among the pieces indents by as many levels as there are open parentheses at it. -/
def Indented (indentSize : Int) : Int → List Piece → Prop
  | _, [] => True
  | level, piece :: rest =>
    (∀ indentation : Nat, piece = newline indentation → indentation = level * indentSize) ∧
      Indented indentSize (level + piece.nesting) rest

theorem nesting_unbroken (piece : Piece) : piece.unbroken.nesting = piece.nesting := by
  cases piece <;> rfl

theorem indented_append {indentSize level : Int} {before after : List Piece} :
    Indented indentSize level (before ++ after) ↔
      Indented indentSize level before ∧ Indented indentSize (level + (before.map nesting).sum) after := by
  induction before generalizing level with
  | nil => simp [Indented]
  | cons piece before ih =>
    rw [List.cons_append, Indented, Indented, ih, List.map_cons, List.sum_cons, and_assoc, Int.add_assoc]

/-- At a line end, the indentation and the open parentheses before it are of the same number. -/
theorem Indented.eq_of_newline {indentSize level : Int} {before after : List Piece} {indentation : Nat}
    (h : Indented indentSize level (before ++ newline indentation :: after)) :
    indentation = (level + (before.map nesting).sum) * indentSize :=
  (indented_append.1 h).2.1 indentation rfl

end Piece

namespace Expr

open Piece

mutual

theorem sum_nesting_flat (e : Expr) : ((flat e).map nesting).sum = 0 := by
  match e with
  | atom a => rfl
  | nil => rfl
  | list [] => rfl
  | list (first :: rest) =>
    simp only [flat, List.map_append, List.map_cons, List.sum_append, List.sum_cons, sum_nesting_flat first,
      sum_nesting_flatRest rest]
    rfl

theorem sum_nesting_flatRest (children : List Expr) : ((flatRest children).map nesting).sum = 0 := by
  match children with
  | [] => rfl
  | child :: rest =>
    have gap : ((if child.isNil then [] else [space]).map nesting).sum = 0 := by split <;> rfl
    simp only [flatRest, List.map_append, List.sum_append, gap, sum_nesting_flat child, sum_nesting_flatRest rest]
    rfl

end

/-- A layout closes what it opens. -/
theorem sum_nesting_layout (settings : Settings) (e : Expr) (cursor : Cursor) :
    ((layout settings e cursor).pieces.map nesting).sum = 0 := by
  have same : nesting ∘ unbroken = nesting := funext nesting_unbroken
  rw [← sum_nesting_flat e, ← map_unbroken_layout settings e cursor, List.map_map, same]

/-! ### The depth after a closed expression -/

theorem depth_settle (settings : Settings) (projected : Int) (cursor : Cursor) :
    (cursor.settle settings projected).depth = cursor.depth := by
  unfold Cursor.settle
  split <;> rfl

variable {settings : Settings}

private theorem depth_layoutRest_of_kept {children : List Expr}
    (kept : ∀ child ∈ children, ∀ cursor, (layout settings child cursor).cursor.depth = cursor.depth)
    (projected : Int) (cursor : Cursor) :
    (layoutRest settings projected children cursor).cursor.depth = cursor.depth := by
  induction children generalizing cursor with
  | nil => rfl
  | cons child rest ih =>
    rw [List.forall_mem_cons] at kept
    rw [layoutRest, ih kept.2, kept.1]

/-- A closed expression leaves the depth as it was. -/
theorem Closed.depth_layout {e : Expr} (h : e.Closed) (cursor : Cursor) :
    (layout settings e cursor).cursor.depth = cursor.depth := by
  induction h generalizing cursor with
  | atom a => rfl
  | @list children _ ih =>
    -- the nil gives back what the list took: it is the first child of a list that has no other
    cases children with
    | nil =>
      simp only [List.nil_append, layout, layoutRest, Cursor.shallower, depth_settle, Cursor.deeper]
      omega
    | cons first rest =>
      rw [List.forall_mem_cons] at ih
      simp only [List.cons_append, layout, layoutRest_append, layoutRest, Cursor.shallower,
        depth_layoutRest_of_kept ih.2, ih.1, depth_settle, Cursor.deeper]
      omega

/-! ### Lists as they are read -/

/-- Expressions in a row that have the property, and perhaps a nil after them. -/
inductive Row (P : Expr → Prop) : List Expr → Prop
  | nil : Row P []
  | closing : Row P [nil]
  | cons {child : Expr} {rest : List Expr} (first : P child) (later : Row P rest) : Row P (child :: rest)

theorem row_of_forall_mem {P : Expr → Prop} {children : List Expr} (h : ∀ child ∈ children, P child) :
    Row P children := by
  induction children with
  | nil => exact .nil
  | cons child rest ih =>
    rw [List.forall_mem_cons] at h
    exact .cons h.1 (ih h.2)

theorem row_concat_nil {P : Expr → Prop} {children : List Expr} (h : ∀ child ∈ children, P child) :
    Row P (children ++ [nil]) := by
  induction children with
  | nil => exact .closing
  | cons child rest ih =>
    rw [List.forall_mem_cons] at h
    exact .cons h.1 (ih h.2)

/-- What holds of atoms, and of a list once it holds of the closed expressions in it, holds of closed expressions. -/
theorem Closed.of_row {P : Expr → Prop} (atom : ∀ a, P (.atom a))
    (list : ∀ children, Row (fun child => child.Closed ∧ P child) children → P (.list children)) {e : Expr}
    (h : e.Closed) : P e := by
  induction h with
  | atom a => exact atom a
  | list closed ih => exact list _ (row_concat_nil fun child mem => ⟨closed child mem, ih child mem⟩)

/-! ### Indentation -/

/-- The expression is indented by levels of the depth, from wherever it is laid out. -/
def KeepsIndented (settings : Settings) (e : Expr) : Prop :=
  ∀ cursor : Cursor, 0 ≤ cursor.depth →
    Indented settings.indentSize cursor.depth (layout settings e cursor).pieces

theorem sum_nesting_separator (settings : Settings) (projected : Int) (cursor : Cursor) (child : Expr) :
    ((separator settings projected cursor child).map nesting).sum = 0 := by
  unfold separator
  split
  · rfl
  · split <;> rfl

private theorem indented_separator (hi : 0 ≤ settings.indentSize) (projected : Int) {cursor : Cursor}
    (inside : 1 ≤ cursor.depth) (child : Expr) :
    Indented settings.indentSize cursor.depth (separator settings projected cursor child) := by
  -- a child is set one level deeper than its list, whose own level is one less than the depth inside
  have columns : cursor.padding settings + settings.indentSize = cursor.depth * settings.indentSize := by
    rw [Cursor.padding, if_neg (by omega), Int.sub_mul]
    omega
  have nonneg : 0 ≤ cursor.depth * settings.indentSize := Int.mul_nonneg (by omega) hi
  unfold separator
  split
  · trivial
  · split
    · refine ⟨?_, trivial⟩
      rintro indentation ⟨⟩
      rw [columns]
      omega
    · exact ⟨nofun, trivial⟩

private theorem indented_layoutRest (hi : 0 ≤ settings.indentSize) {children : List Expr}
    (row : Row (fun child => child.Closed ∧ KeepsIndented settings child) children) (projected : Int)
    {cursor : Cursor} (inside : 1 ≤ cursor.depth) :
    Indented settings.indentSize cursor.depth (layoutRest settings projected children cursor).pieces := by
  induction row generalizing cursor with
  | nil => trivial
  | closing => trivial
  | @cons child rest first _ ih =>
    obtain ⟨closed, keeps⟩ := first
    have gap := indented_separator hi projected inside child
    have here := keeps cursor (by omega)
    have kept : (layout settings child cursor).cursor.depth = cursor.depth := closed.depth_layout cursor
    have later := ih (kept.symm ▸ inside)
    rw [kept] at later
    rw [layoutRest, indented_append, indented_append, List.map_append, List.sum_append, sum_nesting_separator,
      sum_nesting_layout]
    simp only [Int.add_zero]
    exact ⟨⟨gap, here⟩, later⟩

/-- A list of closed expressions that keep to the indentation keeps to it, with a nil at the end or without. -/
theorem indented_list (hi : 0 ≤ settings.indentSize) {children : List Expr}
    (row : Row (fun child => child.Closed ∧ KeepsIndented settings child) children) :
    KeepsIndented settings (list children) := by
  intro cursor outside
  cases row with
  | nil => exact ⟨nofun, trivial⟩
  | closing => exact ⟨nofun, nofun, trivial⟩
  | @cons first rest one later =>
    obtain ⟨closed, keeps⟩ := one
    let projected := cursor.deeper.projected settings (sizeAll (first :: rest))
    let inside := cursor.deeper.settle settings projected
    have depth : inside.depth = cursor.depth + 1 := depth_settle settings projected cursor.deeper
    have kept : (layout settings first inside).cursor.depth = cursor.depth + 1 := by
      rw [closed.depth_layout, depth]
    have deep : 1 ≤ (layout settings first inside).cursor.depth := by omega
    have head := keeps inside (by omega)
    have tail := indented_layoutRest hi later projected deep
    rw [depth] at head
    rw [kept] at tail
    rw [layout, indented_append, indented_append]
    refine ⟨⟨⟨nofun, head⟩, ?_⟩, ⟨nofun, trivial⟩⟩
    rw [List.map_cons, List.sum_cons, sum_nesting_layout, Int.add_zero]
    exact tail

/-- In a closed expression, each line is indented by the number of parentheses that are open before it. -/
theorem Closed.indented_layout (hi : 0 ≤ settings.indentSize) {e : Expr} (h : e.Closed) :
    KeepsIndented settings e := by
  apply h.of_row
  case atom => exact fun _ _ _ => ⟨nofun, trivial⟩
  case list => exact fun _ => indented_list hi

/-! ### The cursor at each part -/

/-- A part of an expression as the layout comes to it: the number of lists around it, the pieces before it, and the
cursor. -/
structure Visit where
  expr : Expr
  level : Nat
  before : List Piece
  cursor : Cursor

mutual

/-- The parts of an expression that is laid out behind some pieces, inside some lists, each before its own parts. -/
def visitsFrom (settings : Settings) : Expr → Nat → List Piece → Cursor → List Visit
  | atom a, level, before, cursor => [⟨atom a, level, before, cursor⟩]
  | nil, level, before, cursor => [⟨nil, level, before, cursor⟩]
  | list [], level, before, cursor => [⟨list [], level, before, cursor⟩]
  | list (first :: rest), level, before, cursor =>
    let projected := cursor.deeper.projected settings (sizeAll (first :: rest))
    let inside := cursor.deeper.settle settings projected
    let head := layout settings first inside
    ⟨list (first :: rest), level, before, cursor⟩ ::
      visitsFrom settings first (level + 1) (before ++ [.opening]) inside ++
      visitsRest settings projected rest (level + 1) (before ++ .opening :: head.pieces) head.cursor

/-- The parts of the later children of a list. -/
def visitsRest (settings : Settings) (projected : Int) : List Expr → Nat → List Piece → Cursor → List Visit
  | [], _, _, _ => []
  | child :: rest, level, before, cursor =>
    let front := before ++ separator settings projected cursor child
    let head := layout settings child cursor
    visitsFrom settings child level front cursor ++
      visitsRest settings projected rest level (front ++ head.pieces) head.cursor

end

/-- The parts of an expression that is laid out on an empty output. -/
def visits (settings : Settings) (e : Expr) : List Visit := visitsFrom settings e 0 [] Cursor.start

mutual

/-- The layout of an expression goes on with the layout of a part where it comes to the part. -/
theorem prefix_of_mem_visitsFrom (e : Expr) {level : Nat} {before : List Piece} {cursor : Cursor} {visit : Visit}
    (h : visit ∈ visitsFrom settings e level before cursor) :
    visit.before ++ (layout settings visit.expr visit.cursor).pieces <+:
      before ++ (layout settings e cursor).pieces := by
  match e with
  | atom a =>
    obtain rfl := List.mem_singleton.1 h
    exact List.prefix_rfl
  | nil =>
    obtain rfl := List.mem_singleton.1 h
    exact List.prefix_rfl
  | list [] =>
    obtain rfl := List.mem_singleton.1 h
    exact List.prefix_rfl
  | list (first :: rest) =>
    let projected := cursor.deeper.projected settings (sizeAll (first :: rest))
    let head := layout settings first (cursor.deeper.settle settings projected)
    let tail := layoutRest settings projected rest head.cursor
    have parts : (layout settings (list (first :: rest)) cursor).pieces =
        .opening :: head.pieces ++ tail.pieces ++ [.closing] := by
      rw [layout]
    rw [visitsFrom] at h
    rcases List.mem_append.1 h with h | h
    · rcases List.mem_cons.1 h with rfl | h
      · exact List.prefix_rfl
      · have early := prefix_of_mem_visitsFrom first h
        rw [parts]
        exact early.trans ⟨tail.pieces ++ [.closing], by simp [head, projected]⟩
    · have late := prefix_of_mem_visitsRest rest h
      rw [parts]
      exact late.trans ⟨[.closing], by simp [head, tail, projected]⟩

theorem prefix_of_mem_visitsRest {projected : Int} (children : List Expr) {level : Nat} {before : List Piece}
    {cursor : Cursor} {visit : Visit} (h : visit ∈ visitsRest settings projected children level before cursor) :
    visit.before ++ (layout settings visit.expr visit.cursor).pieces <+:
      before ++ (layoutRest settings projected children cursor).pieces := by
  match children with
  | [] => cases h
  | child :: rest =>
    let head := layout settings child cursor
    let tail := layoutRest settings projected rest head.cursor
    have parts : (layoutRest settings projected (child :: rest) cursor).pieces =
        separator settings projected cursor child ++ head.pieces ++ tail.pieces := by
      rw [layoutRest]
    rw [visitsRest] at h
    rw [parts]
    rcases List.mem_append.1 h with h | h
    · have early := prefix_of_mem_visitsFrom child h
      exact early.trans ⟨tail.pieces, by simp [head]⟩
    · have late := prefix_of_mem_visitsRest rest h
      exact late.trans ⟨[], by simp [head, tail]⟩

end

mutual

/-- The lists around a part are those whose parentheses are open before it. -/
theorem sum_nesting_of_mem_visitsFrom (e : Expr) {level : Nat} {before : List Piece} {cursor : Cursor} {visit : Visit}
    (h : visit ∈ visitsFrom settings e level before cursor) (around : (before.map nesting).sum = level) :
    (visit.before.map nesting).sum = visit.level := by
  match e with
  | atom a =>
    obtain rfl := List.mem_singleton.1 h
    exact around
  | nil =>
    obtain rfl := List.mem_singleton.1 h
    exact around
  | list [] =>
    obtain rfl := List.mem_singleton.1 h
    exact around
  | list (first :: rest) =>
    rw [visitsFrom] at h
    rcases List.mem_append.1 h with h | h
    · rcases List.mem_cons.1 h with rfl | h
      · exact around
      · apply sum_nesting_of_mem_visitsFrom first h
        rw [List.map_append, List.sum_append, around]
        rfl
    · apply sum_nesting_of_mem_visitsRest rest h
      rw [List.map_append, List.sum_append, around, List.map_cons, List.sum_cons, sum_nesting_layout]
      rfl

theorem sum_nesting_of_mem_visitsRest {projected : Int} (children : List Expr) {level : Nat} {before : List Piece}
    {cursor : Cursor} {visit : Visit} (h : visit ∈ visitsRest settings projected children level before cursor)
    (around : (before.map nesting).sum = level) : (visit.before.map nesting).sum = visit.level := by
  match children with
  | [] => cases h
  | child :: rest =>
    have front : ((before ++ separator settings projected cursor child).map nesting).sum = level := by
      rw [List.map_append, List.sum_append, sum_nesting_separator, around, Int.add_zero]
    rw [visitsRest] at h
    rcases List.mem_append.1 h with h | h
    · exact sum_nesting_of_mem_visitsFrom child h front
    · apply sum_nesting_of_mem_visitsRest rest h
      rw [List.map_append, List.sum_append, front, sum_nesting_layout, Int.add_zero]

end

/-- Wherever the depth is the number of lists around the expression, it is so at each of its parts. -/
def KeepsDepth (settings : Settings) (e : Expr) : Prop :=
  ∀ (level : Nat) (before : List Piece) (cursor : Cursor), cursor.depth = level →
    ∀ visit ∈ visitsFrom settings e level before cursor, visit.cursor.depth = visit.level

private theorem depth_of_mem_visitsRest {children : List Expr}
    (row : Row (fun child => child.Closed ∧ KeepsDepth settings child) children) (projected : Int) {level : Nat}
    (before : List Piece) {cursor : Cursor} (depth : cursor.depth = level) :
    ∀ visit ∈ visitsRest settings projected children level before cursor, visit.cursor.depth = visit.level := by
  induction row generalizing before cursor with
  | nil => nofun
  | closing => exact List.forall_mem_singleton.2 depth
  | @cons child rest first _ ih =>
    obtain ⟨closed, keeps⟩ := first
    rw [visitsRest, List.forall_mem_append]
    exact ⟨keeps level _ cursor depth, ih _ (by rwa [closed.depth_layout])⟩

theorem keepsDepth_list {children : List Expr}
    (row : Row (fun child => child.Closed ∧ KeepsDepth settings child) children) :
    KeepsDepth settings (list children) := by
  intro level before cursor depth
  cases row with
  | nil => exact List.forall_mem_singleton.2 depth
  | closing =>
    rw [visitsFrom, visitsFrom, visitsRest, List.append_nil, List.forall_mem_cons, List.forall_mem_singleton]
    refine ⟨depth, ?_⟩
    simp only [depth_settle, Cursor.deeper, depth]
    rfl
  | @cons first rest one later =>
    obtain ⟨closed, keeps⟩ := one
    have inside : (cursor.deeper.settle settings
        (cursor.deeper.projected settings (sizeAll (first :: rest)))).depth = (level + 1 : Nat) := by
      rw [depth_settle, Cursor.deeper, depth]
      rfl
    rw [visitsFrom, List.forall_mem_append, List.forall_mem_cons]
    exact ⟨⟨depth, keeps _ _ _ inside⟩, depth_of_mem_visitsRest later _ _ (by rwa [closed.depth_layout])⟩

/-- In a closed expression, the depth at each part is the number of lists around it. -/
theorem Closed.keepsDepth {e : Expr} (h : e.Closed) : KeepsDepth settings e := by
  apply h.of_row
  case atom => exact fun _ _ _ _ depth => List.forall_mem_singleton.2 depth
  case list => exact fun _ => keepsDepth_list

end Expr

end SExprLayout
