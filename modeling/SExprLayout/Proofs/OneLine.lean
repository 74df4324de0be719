import SExprLayout.Proofs.Indentation
import SExprLayout.Proofs.Layout.Lines

/-!
# Enough width for one line

A closed list stays on the line where it begins if the maximum width is at least twice what its innermost lists may
need: the running width, the padding of the deepest level, and the size of the list (`Expr.StaysFlat`).  Half of the
maximum is then enough for the projected width of each list in it, so that none of them starts over; and the other half
is enough for any child behind the projected width, which counts the size of the child a second time, and the padding.
Hence the running width goes up by the atoms that were written, and what is left of the width is enough for the lists to
come (`Expr.layoutRest_of_staysFlat`).

What is read from a source is closed but for a nil at the end, which is not written, so it is formatted as a single line
if there is enough width (`layout_on_one_line`).
-/

namespace SExprLayout

/-! ### Starting over -/

/-- A list of the given size that begins here starts over. -/
def Cursor.StartsOver (settings : Settings) (size : Nat) (cursor : Cursor) : Prop :=
  settings.maxWidth / 2 < cursor.deeper.projected settings size ∧ 1 < cursor.deeper.depth

/-- A list that does not start over is laid out from the width at which it begins. -/
theorem Cursor.settle_of_not_startsOver {settings : Settings} {size : Nat} {cursor : Cursor}
    (h : ¬cursor.StartsOver settings size) :
    cursor.deeper.settle settings (cursor.deeper.projected settings size) = cursor.deeper := if_neg h

namespace Cursor

theorem advance_zero (cursor : Cursor) : cursor.advance 0 = cursor := by
  rw [advance, Int.natCast_zero, Int.add_zero]

theorem advance_advance (cursor : Cursor) (m n : Nat) : (cursor.advance m).advance n = cursor.advance (m + n) := by
  simp only [advance, mk.injEq, and_true]
  omega

/-- A list gives its depth back. -/
theorem shallower_advance_deeper (cursor : Cursor) (length : Nat) :
    (cursor.deeper.advance length).shallower = cursor.advance length := by
  simp only [advance, deeper, shallower, mk.injEq, true_and]
  omega

end Cursor

namespace Expr

/-- The part is a list with children, and it starts over. -/
def Visit.StartsOver (settings : Settings) (visit : Visit) : Prop :=
  match visit.expr with
  | list (first :: rest) => visit.cursor.StartsOver settings (sizeAll (first :: rest))
  | _ => False

/-! ### Height -/

mutual

/-- The number of lists on the deepest path into an expression. -/
def height : Expr → Nat
  | atom _ => 0
  | nil => 0
  | list children => heightAll children + 1

/-- The greatest height of expressions in a row. -/
def heightAll : List Expr → Nat
  | [] => 0
  | child :: rest => max child.height (heightAll rest)

end

theorem height_le_heightAll {child : Expr} {children : List Expr} (h : child ∈ children) :
    child.height ≤ heightAll children := by
  induction children with
  | nil => cases h
  | cons first rest ih =>
    rw [heightAll]
    rcases List.mem_cons.1 h with rfl | h
    · exact Nat.le_max_left _ _
    · exact Nat.le_trans (ih h) (Nat.le_max_right _ _)

theorem heightAll_concat_nil (children : List Expr) : heightAll (children ++ [nil]) = heightAll children := by
  induction children with
  | nil => rfl
  | cons child rest ih => rw [List.cons_append, heightAll, heightAll, ih]

theorem sizeAll_concat_nil (children : List Expr) : sizeAll (children ++ [nil]) = sizeAll children :=
  sizeAll_append children [nil]

/-! ### Staying on the line -/

variable {settings : Settings} {projected : Int} {cursor after later : Cursor} {child first : Expr} {rest : List Expr}

/-- From one cursor to another, the expression is laid out on one line, and no list in it starts over. -/
structure FlatFrom (settings : Settings) (e : Expr) (cursor after : Cursor) : Prop where
  layout : e.layout settings cursor = ⟨flat e, after⟩
  lasting : ∀ level before, ∀ visit ∈ visitsFrom settings e level before cursor, ¬visit.StartsOver settings

/-- From one cursor to another, the later children of a list are laid out on one line, and no list in them starts
over. -/
structure FlatRestFrom (settings : Settings) (projected : Int) (children : List Expr) (cursor after : Cursor) :
    Prop where
  layout : layoutRest settings projected children cursor = ⟨flatRest children, after⟩
  lasting : ∀ level before, ∀ visit ∈ visitsRest settings projected children level before cursor,
    ¬visit.StartsOver settings

theorem FlatFrom.atom (a : Atom) (cursor : Cursor) : FlatFrom settings (atom a) cursor (cursor.advance a.length) :=
  ⟨rfl, fun _ _ => List.forall_mem_singleton.2 id⟩

theorem FlatFrom.nil (cursor : Cursor) : FlatFrom settings nil cursor cursor.shallower :=
  ⟨rfl, fun _ _ => List.forall_mem_singleton.2 id⟩

/-- A list that does not start over is laid out on one line if its children are. -/
theorem FlatFrom.list (stays : ¬cursor.StartsOver settings (sizeAll (first :: rest)))
    (head : FlatFrom settings first cursor.deeper after)
    (tail : FlatRestFrom settings (cursor.deeper.projected settings (sizeAll (first :: rest))) rest after later) :
    FlatFrom settings (list (first :: rest)) cursor later := by
  have settled := Cursor.settle_of_not_startsOver stays
  constructor
  · rw [Expr.layout, settled, head.layout, tail.layout]
    rfl
  · intro level before
    rw [visitsFrom, settled, head.layout, List.forall_mem_append, List.forall_mem_cons]
    exact ⟨⟨stays, head.lasting _ _⟩, tail.lasting _ _⟩

theorem FlatRestFrom.none (cursor : Cursor) : FlatRestFrom settings projected [] cursor cursor :=
  ⟨rfl, fun _ _ => nofun⟩

theorem FlatRestFrom.nil (cursor : Cursor) : FlatRestFrom settings projected [Expr.nil] cursor cursor.shallower :=
  ⟨rfl, fun _ _ => List.forall_mem_singleton.2 id⟩

/-- A child that does not break goes on with the line. -/
theorem FlatRestFrom.cons (visible : child.isNil = false) (inline : ¬Breaks settings projected cursor child)
    (head : FlatFrom settings child cursor after) (tail : FlatRestFrom settings projected rest after later) :
    FlatRestFrom settings projected (child :: rest) cursor later := by
  have gap : separator settings projected cursor child = [.space] := by
    rw [separator, if_neg (by simp [visible]), if_neg inline]
  constructor
  · rw [layoutRest, head.layout, gap, tail.layout, flatRest, if_neg (by simp [visible])]
  · intro level before
    rw [visitsRest, head.layout, List.forall_mem_append]
    exact ⟨head.lasting _ _, tail.lasting _ _⟩

/-! ### Enough width -/

/-- Wherever twice the running width, the room and the size is within the maximum width, and the room is enough for the
padding of the innermost lists, the expression stays on one line. -/
def StaysFlat (settings : Settings) (e : Expr) : Prop :=
  ∀ (cursor : Cursor) (room : Int), 0 ≤ cursor.width → 0 ≤ cursor.depth →
    (cursor.depth + e.height - 1) * settings.indentSize ≤ room →
    2 * (cursor.width + room + e.size) ≤ settings.maxWidth → FlatFrom settings e cursor (cursor.advance e.size)

/-- The later children of a list whose nil is at the end stay on the line, each of them finding the width that the
earlier ones left. -/
private theorem flatRestFrom_of_staysFlat {children : List Expr}
    (each : ∀ child ∈ children, child.isNil = false ∧ StaysFlat settings child) {room : Int}
    (width : 0 ≤ cursor.width) (inside : 0 ≤ cursor.depth)
    (levels : ∀ child ∈ children, (cursor.depth + child.height - 1) * settings.indentSize ≤ room)
    (fits : 2 * (cursor.width + room + sizeAll children) ≤ settings.maxWidth)
    (inline : ∀ child ∈ children, ¬Breaks settings projected cursor child) :
    FlatRestFrom settings projected (children ++ [nil]) cursor (cursor.advance (sizeAll children)).shallower := by
  induction children generalizing cursor with
  | nil =>
    rw [sizeAll, Cursor.advance_zero]
    exact .nil cursor
  | cons child rest ih =>
    rw [List.forall_mem_cons] at each levels inline
    rw [sizeAll] at fits ⊢
    obtain ⟨visible, stays⟩ := each.1
    have head := stays cursor room width inside levels.1 (by omega)
    have onward : 0 ≤ (cursor.advance child.size).width := by
      simp only [Cursor.advance]
      omega
    have left : 2 * ((cursor.advance child.size).width + room + sizeAll rest) ≤ settings.maxWidth := by
      simp only [Cursor.advance]
      omega
    have tail := ih each.2 onward inside levels.2 left inline.2
    rw [Cursor.advance_advance] at tail
    exact .cons visible inline.1 head tail

/-- A closed expression stays on one line where there is enough width. -/
theorem Closed.staysFlat (hi : 0 ≤ settings.indentSize) {e : Expr} (h : e.Closed) : StaysFlat settings e := by
  induction h with
  | atom a => exact fun cursor _ _ _ _ _ => .atom a cursor
  | @list children closed ih =>
    intro cursor room width outside deep fits
    rw [height, heightAll_concat_nil] at deep
    rw [size, sizeAll_concat_nil] at fits ⊢
    have reach : ∀ level : Int, level ≤ cursor.depth + heightAll children → level * settings.indentSize ≤ room := by
      intro level le
      have above : level ≤ cursor.depth + (heightAll children + 1 : Nat) - 1 := by omega
      exact Int.le_trans (Int.mul_le_mul_of_nonneg_right above hi) deep
    have padding : cursor.deeper.padding settings ≤ room := by
      rw [Cursor.padding, Cursor.deeper, if_neg (by simp only; omega)]
      exact reach _ (by simp only; omega)
    have projected : cursor.deeper.projected settings (sizeAll (children ++ [nil])) =
        cursor.width + cursor.deeper.padding settings + sizeAll children := by
      rw [sizeAll_concat_nil]
      rfl
    have stays : ¬cursor.StartsOver settings (sizeAll (children ++ [nil])) := by
      rintro ⟨exceeds, -⟩
      omega
    cases children with
    | nil =>
      rw [sizeAll, ← Cursor.shallower_advance_deeper, Cursor.advance_zero]
      exact .list stays (.nil _) (.none _)
    | cons first rest =>
      rw [List.forall_mem_cons] at closed ih
      rw [heightAll] at reach
      rw [sizeAll] at fits projected ⊢
      have nonneg := cursor.deeper.padding_nonneg hi
      have nested : cursor.deeper.depth = cursor.depth + 1 := rfl
      have inside : 0 ≤ cursor.deeper.depth := by omega
      have enough : 2 * (cursor.deeper.width + room + first.size) ≤ settings.maxWidth := by
        simp only [Cursor.deeper]
        omega
      have head := ih.1 cursor.deeper room width inside (reach _ (by omega)) enough
      have onward : 0 ≤ (cursor.deeper.advance first.size).width := by
        simp only [Cursor.deeper, Cursor.advance]
        omega
      have levels : ∀ child ∈ rest, (cursor.deeper.depth + child.height - 1) * settings.indentSize ≤ room := by
        intro child mem
        have := height_le_heightAll mem
        exact reach _ (by omega)
      have left : 2 * ((cursor.deeper.advance first.size).width + room + sizeAll rest) ≤ settings.maxWidth := by
        simp only [Cursor.deeper, Cursor.advance]
        omega
      -- the size of the child is counted twice, once in the projected width, and so is the padding
      have inline : ∀ child ∈ rest, ¬Breaks settings
          (cursor.deeper.projected settings (sizeAll (first :: rest ++ [nil]))) (cursor.deeper.advance first.size)
          child := by
        intro child mem breaks
        have small := size_le_of_mem mem
        rw [size] at small
        have same : (cursor.deeper.advance first.size).padding settings = cursor.deeper.padding settings := rfl
        unfold Breaks at breaks
        omega
      have tail := flatRestFrom_of_staysFlat (fun child mem => ⟨(closed.2 child mem).isNil_eq, ih.2 child mem⟩) onward
        inside levels left inline
      rw [Cursor.advance_advance, Cursor.shallower_advance_deeper] at tail
      exact .list stays head tail

/-- The one-line layout has no line end. -/
theorem unbroken_flat (e : Expr) : Piece.Unbroken (flat e) := by
  intro piece mem
  rw [← map_unbroken_layout Settings.default e Cursor.start] at mem
  obtain ⟨other, -, rfl⟩ := List.mem_map.1 mem
  cases other <;> rfl

/-- What is read from a source is laid out on one line where there is enough width. -/
theorem pieces_eq_flat_of_parse {source : List UInt8} {e : Expr} (parsed : parse source = .ok e)
    (hi : 0 ≤ settings.indentSize)
    (fits : 2 * (e.size + (e.height - 1) * settings.indentSize) ≤ settings.maxWidth) : e.pieces settings = flat e := by
  have flat_of_closed : ∀ e : Expr, e.Closed → 2 * (e.size + (e.height - 1) * settings.indentSize) ≤ settings.maxWidth →
      e.pieces settings = flat e := by
    intro e closed fits
    have stays := closed.staysFlat hi Cursor.start _ (Int.le_refl 0) (Int.le_refl 0) (Int.le_refl _) ?_
    · rw [pieces, stays.layout]
    · simp only [Cursor.start, Int.zero_add]
      omega
  rcases (shape_of_parse parsed).2 with closed | ⟨children, some, closed, rfl⟩
  · exact flat_of_closed e closed fits
  · -- a nil at the end would not be written
    obtain ⟨first, rest, rfl⟩ := List.exists_cons_of_ne_nil some
    rw [height, ← heightAll_concat_nil, ← height, size, ← sizeAll_concat_nil, ← size] at fits
    have written := flat_of_closed _ (.list closed) fits
    have same : flat (list (first :: rest ++ [nil])) = flat (list (first :: rest)) := by
      rw [← map_unbroken_layout settings _ Cursor.start, ← map_unbroken_layout settings _ Cursor.start]
      exact congrArg (List.map Piece.unbroken) (pieces_concat_nil settings first rest)
    rwa [pieces_concat_nil, same] at written

end Expr

/-- A closed list stays on the line where it begins if the maximum width is at least twice the running width, the
padding of its innermost lists and its size together.  None of the lists in it starts over, the running width goes up by
the size, and the depth is given back.  So what is read from a source, if it has a list in it, is formatted as a single
line for each maximum width that is at least twice the padding of the innermost lists and the size. -/
theorem layout_on_one_line {settings : Settings} (hi : 0 ≤ settings.indentSize) :
    (∀ (children : List Expr) (cursor : Cursor), (Expr.list children).Closed → 0 ≤ cursor.width → 0 ≤ cursor.depth →
      2 * (cursor.width + (cursor.depth + (Expr.list children).height - 1) * settings.indentSize +
          (Expr.list children).size) ≤ settings.maxWidth →
      Piece.Unbroken ((Expr.list children).layout settings cursor).pieces ∧
        ((Expr.list children).layout settings cursor).pieces = (Expr.list children).flat ∧
        ((Expr.list children).layout settings cursor).cursor =
          ⟨cursor.width + (Expr.list children).size, cursor.depth⟩ ∧
        ∀ level before, ∀ visit ∈ Expr.visitsFrom settings (.list children) level before cursor,
          ¬visit.StartsOver settings) ∧
      ∀ (source : Argument) (e : Expr), Expr.ofArgument source = .ok e → 1 ≤ e.height →
        2 * (e.size + (e.height - 1) * settings.indentSize) ≤ settings.maxWidth →
        formatSource (some (.integer settings.maxWidth)) (some (.integer settings.indentSize)) source =
            .ok e.oneLine ∧
          '\n' ∉ e.oneLine.toList := by
  constructor
  · intro children cursor closed width outside fits
    have stays := closed.staysFlat hi cursor _ width outside (Int.le_refl _) fits
    rw [stays.layout]
    exact ⟨Expr.unbroken_flat _, rfl, rfl, stays.lasting⟩
  · intro source e read nested fits
    obtain ⟨bytes, -, parsed⟩ := Expr.ofArgument_eq_ok_iff.1 read
    have written := Expr.pieces_eq_flat_of_parse parsed hi fits
    have text := Expr.textAll_flat_of_parse parsed
    have hw : 0 ≤ settings.maxWidth := by
      have := Int.mul_nonneg (show (0 : Int) ≤ e.height - 1 by omega) hi
      omega
    constructor
    · rw [formatSource_integer hw hi, read, Except.map, Expr.format_eq_textAll, ← text, ← written]
    · intro broken
      obtain ⟨before, after, split⟩ := List.append_of_mem broken
      have clean : ∀ a ∈ e.flat.flatMap Piece.atoms, a.Clean := by
        rw [Expr.atoms_flat]
        exact (Expr.shape_of_parse parsed).1
      rw [← text] at split
      obtain ⟨front, indentation, back, pieces, -⟩ := Piece.exists_newline_of_text clean split
      have lineEnd := Expr.unbroken_flat e (.newline indentation) (by simp [pieces])
      cases lineEnd

/-- The list `(a (b ()) c)` behind two characters in another list, and the source `(a (b c)`, at an indent size of two:
a maximum width of 22 is just enough for the first and more than enough for the second. -/
theorem layout_on_one_line_nested :
    ((Expr.list [.atom ⟨"a", by decide⟩, .list [.atom ⟨"b", by decide⟩, .list [.nil], .nil], .atom ⟨"c", by decide⟩,
        .nil]).layout ⟨22, 2⟩ ⟨2, 1⟩).cursor = ⟨5, 1⟩ ∧
      formatSource (some (.integer 22)) (some (.integer 2)) (.text "(a (b c)") = .ok "(ERROR a (b c))" := by
  have enough := @layout_on_one_line ⟨22, 2⟩ (by decide)
  constructor
  · have inner : (Expr.list [.atom ⟨"b", by decide⟩, .list [.nil], .nil]).Closed :=
      @Expr.Closed.list [.atom ⟨"b", by decide⟩, .list [.nil]]
        (List.forall_mem_cons.2 ⟨.atom _, List.forall_mem_singleton.2 (@Expr.Closed.list [] nofun)⟩)
    have closed := @Expr.Closed.list [.atom ⟨"a", by decide⟩, _, .atom ⟨"c", by decide⟩]
      (List.forall_mem_cons.2 ⟨.atom _, List.forall_mem_cons.2 ⟨inner, List.forall_mem_singleton.2 (.atom _)⟩⟩)
    exact (enough.1 _ ⟨2, 1⟩ closed (by decide) (by decide) (by decide)).2.2.1
  · have read : Expr.ofArgument (.text "(a (b c)") = .ok (.list [.atom ⟨"ERROR", by decide⟩, .atom ⟨"a", by decide⟩,
        .list [.atom ⟨"b", by decide⟩, .atom ⟨"c", by decide⟩, .nil]]) := by
      decide
    exact (enough.2 _ _ read (by decide) (by decide)).1

end SExprLayout
