import SExprLayout.Proofs.Indentation

/-!
# Layout by levels

The cursor of a layout carries a depth along, which lists raise and nil lowers.  The layout by levels has no such
state.  The level is handed down: an expression is laid out on level one, and the children of a list one level further
in.  A list reads its padding off its own level, for its projected width, for starting over, and for all its
separators.  Nil is passed over wherever it stands, and the width alone goes from one child to the next.

In an expression made by hand, nil may come anywhere, and the depth drifts away from the level.  What is read from a
source is written the same both ways (`Expr.writes_eq_writesByLevel`).  The depth moves inside a child, but a closed
child gives it back, so before each child of a list the depth is again the level of the list, and both layouts choose
the same separator and go on from the same width (`Expr.FollowsLevels`).
-/

namespace SExprLayout

/-! ### The layout -/

/-- A row of pieces and the width after them. -/
structure Stretch where
  pieces : List Piece
  width : Int
  deriving DecidableEq

/-- The columns to the left of a list on the given level; the outermost list is on level one. -/
def Settings.padding (settings : Settings) (level : Nat) : Int := ((level : Int) - 1) * settings.indentSize

namespace Expr

/-- What stands before a later child of a list on the given level. -/
def separatorByLevel (settings : Settings) (projected : Int) (level : Nat) (child : Expr) : Piece :=
  if settings.maxWidth < projected + settings.padding level + child.size then
    .newline (settings.padding level + settings.indentSize).toNat
  else .space

mutual

/-- Lays an expression out on a level, from a width. -/
def layoutByLevel (settings : Settings) : Expr → Nat → Int → Stretch
  | atom a, _, width => ⟨[.atom a], width + a.length⟩
  | nil, _, width => ⟨[], width⟩
  | list children, level, width =>
    if children.isEmpty then ⟨[.empty], width⟩
    else
      let projected := width + settings.padding level + sizeAll children
      let inside := if settings.maxWidth / 2 < projected ∧ 1 < level then settings.padding level else width
      let row := layoutRowByLevel settings projected true children level inside
      ⟨.opening :: row.pieces ++ [.closing], row.width⟩

/-- Lays children of a list on the given level out, without its nils; the first of the list has no separator. -/
def layoutRowByLevel (settings : Settings) (projected : Int) (isFirst : Bool) : List Expr → Nat → Int → Stretch
  | [], _, width => ⟨[], width⟩
  | child :: rest, level, width =>
    if child.isNil then layoutRowByLevel settings projected isFirst rest level width
    else
      let gap := if isFirst then [] else [separatorByLevel settings projected level child]
      let head := layoutByLevel settings child (level + 1) width
      let tail := layoutRowByLevel settings projected false rest level head.width
      ⟨gap ++ head.pieces ++ tail.pieces, tail.width⟩

end

/-- The texts that an expression is written as by levels, one for each write. -/
def writesByLevel (settings : Settings) (e : Expr) : List String :=
  (layoutByLevel settings e 1 0).pieces.flatMap Piece.writes

end Expr

/-! ### Where the depth is the level -/

/-- A rendering without its depth. -/
def Rendering.stretch (rendering : Rendering) : Stretch := ⟨rendering.pieces, rendering.cursor.width⟩

namespace Cursor

variable {settings : Settings} {level : Nat} {cursor : Cursor}

theorem padding_eq (depth : cursor.depth = level) (inside : 1 ≤ level) :
    cursor.padding settings = settings.padding level := by
  rw [padding, if_neg (by omega), depth, Settings.padding]

theorem width_settle (depth : cursor.depth = level) (inside : 1 ≤ level) (projected : Int) :
    (cursor.settle settings projected).width =
      if settings.maxWidth / 2 < projected ∧ 1 < level then settings.padding level else cursor.width := by
  have nested : 1 < cursor.depth ↔ 1 < level := by omega
  simp only [settle, nested, padding_eq depth inside]
  split <;> rfl

end Cursor

namespace Expr

variable {settings : Settings}

theorem separator_eq {level : Nat} {cursor : Cursor} (depth : cursor.depth = level) (inside : 1 ≤ level)
    (projected : Int) {child : Expr} (visible : child.isNil = false) :
    separator settings projected cursor child = [separatorByLevel settings projected level child] := by
  rw [separator, if_neg (by simp [visible]), separatorByLevel]
  simp only [Breaks, Cursor.padding_eq depth inside]
  split <;> rfl

/-- Wherever the depth is the number of lists around the expression, it is laid out as by levels. -/
def FollowsLevels (settings : Settings) (e : Expr) : Prop :=
  ∀ (level : Nat) (cursor : Cursor), cursor.depth = level →
    (layout settings e cursor).stretch = layoutByLevel settings e (level + 1) cursor.width

/-- The later children are laid out as by levels: each is closed, so that the next one finds the same depth. -/
theorem stretch_layoutRest {children : List Expr}
    (row : Row (fun child => child.Closed ∧ FollowsLevels settings child) children) (projected : Int) {level : Nat}
    (inside : 1 ≤ level) {cursor : Cursor} (depth : cursor.depth = level) :
    (layoutRest settings projected children cursor).stretch =
      layoutRowByLevel settings projected false children level cursor.width := by
  induction row generalizing cursor with
  | nil => rfl
  | closing => rfl
  | @cons child rest first _ ih =>
    obtain ⟨closed, follows⟩ := first
    have visible : child.isNil = false := closed.isNil_eq
    have here := follows level cursor depth
    have kept : (layout settings child cursor).cursor.depth = level := by rw [closed.depth_layout, depth]
    have later := ih kept
    rw [layoutRest, layoutRowByLevel, if_neg (by simp [visible]), separator_eq depth inside projected visible, ← here]
    simp only [Rendering.stretch] at later ⊢
    rw [← later]
    rfl

/-- A list with children is laid out as by levels if its children are, wherever the depth is the level of the list. -/
private theorem followsLevels_list_cons {first : Expr} {rest : List Expr}
    (inner : ∀ (projected : Int) (level : Nat) (cursor : Cursor), 1 ≤ level → cursor.depth = level →
      let head := layout settings first cursor
      let tail := layoutRest settings projected rest head.cursor
      Stretch.mk (head.pieces ++ tail.pieces) tail.cursor.width =
        layoutRowByLevel settings projected true (first :: rest) level cursor.width) :
    FollowsLevels settings (list (first :: rest)) := by
  intro level cursor depth
  have deep : cursor.deeper.depth = (level + 1 : Nat) := by
    rw [Cursor.deeper, depth]
    rfl
  have inside : 1 ≤ level + 1 := Nat.le_add_left 1 level
  let projected := cursor.deeper.projected settings (sizeAll (first :: rest))
  have sum : cursor.width + settings.padding (level + 1) + sizeAll (first :: rest) = projected := by
    rw [← Cursor.padding_eq deep inside]
    rfl
  have settled : (cursor.deeper.settle settings projected).depth = (level + 1 : Nat) := by rw [depth_settle, deep]
  have row := inner projected (level + 1) _ inside settled
  rw [Cursor.width_settle deep inside] at row
  rw [layoutByLevel, if_neg (by simp), sum]
  simp only
  rw [show cursor.width = cursor.deeper.width from rfl, ← row]
  rfl

/-- A list of closed expressions that are laid out as by levels is so, with a nil at the end or without. -/
theorem followsLevels_list {children : List Expr}
    (row : Row (fun child => child.Closed ∧ FollowsLevels settings child) children) :
    FollowsLevels settings (list children) := by
  cases row with
  | nil => exact fun _ _ _ => rfl
  | closing => exact followsLevels_list_cons fun _ _ _ _ _ => rfl
  | @cons first rest one later =>
    obtain ⟨closed, follows⟩ := one
    apply followsLevels_list_cons
    intro projected level cursor inside depth
    have visible : first.isNil = false := closed.isNil_eq
    have here := follows level cursor depth
    have kept : (layout settings first cursor).cursor.depth = level := by rw [closed.depth_layout, depth]
    have tail := stretch_layoutRest later projected inside kept
    rw [layoutRowByLevel, if_neg (by simp [visible]), ← here]
    simp only [Rendering.stretch] at tail ⊢
    rw [← tail]
    rfl

/-! ### What is read from a source -/

/-- What is read from a source is written as by levels, for all settings.  Whenever the layout comes to a part, the
depth is the number of lists around the part, which is the level of the innermost of them. -/
theorem writes_eq_writesByLevel {source : Argument} {e : Expr} (read : ofArgument source = .ok e)
    (settings : Settings) :
    e.writes settings = e.writesByLevel settings ∧
      ∀ visit ∈ e.visits settings, visit.cursor.depth = visit.level := by
  obtain ⟨bytes, -, parsed⟩ := ofArgument_eq_ok_iff.1 read
  have follows : FollowsLevels settings e := of_row_of_parse (fun _ _ _ _ => rfl) (fun _ => followsLevels_list) parsed
  have same : e.pieces settings = (layoutByLevel settings e 1 0).pieces :=
    congrArg Stretch.pieces (follows 0 Cursor.start rfl)
  refine ⟨?_, depth_of_mem_visits parsed settings⟩
  rw [writes, writesByLevel, same]

theorem writes_eq_writesByLevel_unclosed :
    (list [.atom ⟨"ERROR", by decide⟩, .atom ⟨"a", by decide⟩, list [nil],
        list [.atom ⟨"b", by decide⟩, list [.atom ⟨"c", by decide⟩, .atom ⟨"d", by decide⟩, nil],
          nil]]).writesByLevel ⟨11, 2⟩ =
      ["(", "ERROR", " ", "a", " ", "(", ")", "\n", "  ", "(", "b", " ", "(", "c", "\n", "      ", "d", ")", ")",
        ")"] := by
  have read : ofArgument (.text "(a () (b (c d))") = .ok (list [.atom ⟨"ERROR", by decide⟩, .atom ⟨"a", by decide⟩,
      list [nil], list [.atom ⟨"b", by decide⟩, list [.atom ⟨"c", by decide⟩, .atom ⟨"d", by decide⟩, nil],
        nil]]) := by
    decide
  rw [← (writes_eq_writesByLevel read ⟨11, 2⟩).1]
  decide

-- a nil that is not at the end of its list takes the depth away from the children after it
example : (list [list [.atom ⟨"a", by decide⟩, nil, .atom ⟨"b", by decide⟩]]).writes ⟨0, 2⟩ ≠
    (list [list [.atom ⟨"a", by decide⟩, nil, .atom ⟨"b", by decide⟩]]).writesByLevel ⟨0, 2⟩ := by
  decide

end Expr

end SExprLayout
