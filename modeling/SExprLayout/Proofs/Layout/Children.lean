import SExprLayout.Proofs.Layout.Lines
import SExprLayout.Proofs.Layout.Nesting

/-!
# The layout at the children of a list

The parts that a layout comes to are the expression and all expressions below it (`map_expr_visits`).  With a part that
is a list, the layout comes to its children in a row: to the first one behind the opening parenthesis, with the cursor
from which the list is laid out, and to each later one behind its separator, where the earlier ones left the cursor
(`Visit.children`).  These are parts that the layout comes to as well (`mem_visits_of_mem_children`), so what is known
of all parts is known of the children of each list.

Before a later child that is not nil the last piece is its separator.  Whether this is a line end is decided by the
projected width of the list, which does not change from one child to the next, and by the padding and the size of the
child (`Visit.getLast?_before`).
-/

namespace SExprLayout.Expr

/-- The children of a list; other expressions have none. -/
def children : Expr → List Expr
  | list children => children
  | _ => []

variable {settings : Settings}

/-! ### All parts are visited -/

mutual

theorem map_expr_visitsFrom (settings : Settings) (e : Expr) (level : Nat) (before : List Piece) (cursor : Cursor) :
    (visitsFrom settings e level before cursor).map Visit.expr = e :: e.beneath := by
  match e with
  | atom a => rfl
  | nil => rfl
  | list [] => rfl
  | list (first :: rest) =>
    rw [visitsFrom, List.map_append, List.map_cons, map_expr_visitsFrom settings first,
      map_expr_visitsRest settings _ rest]
    rfl

theorem map_expr_visitsRest (settings : Settings) (projected : Int) (children : List Expr) (level : Nat)
    (before : List Piece) (cursor : Cursor) :
    (visitsRest settings projected children level before cursor).map Visit.expr = beneathAll children := by
  match children with
  | [] => rfl
  | child :: rest =>
    rw [visitsRest, List.map_append, map_expr_visitsFrom settings child, map_expr_visitsRest settings _ rest]
    rfl

end

/-- The layout comes to the expression and to each expression below it, once. -/
theorem map_expr_visits (settings : Settings) (e : Expr) : (e.visits settings).map Visit.expr = e :: e.beneath :=
  map_expr_visitsFrom settings e 0 [] Cursor.start

mutual

/-- The parts of a part are parts of the whole. -/
theorem visitsFrom_subset (e : Expr) {level : Nat} {before : List Piece} {cursor : Cursor} {visit : Visit}
    (h : visit ∈ visitsFrom settings e level before cursor) :
    visitsFrom settings visit.expr visit.level visit.before visit.cursor ⊆
      visitsFrom settings e level before cursor := by
  match e with
  | atom a =>
    obtain rfl := List.mem_singleton.1 h
    exact List.Subset.refl _
  | nil =>
    obtain rfl := List.mem_singleton.1 h
    exact List.Subset.refl _
  | list [] =>
    obtain rfl := List.mem_singleton.1 h
    exact List.Subset.refl _
  | list (first :: rest) =>
    rw [visitsFrom] at h
    rcases List.mem_append.1 h with h | h
    · rcases List.mem_cons.1 h with rfl | h
      · exact List.Subset.refl _
      · rw [visitsFrom]
        exact fun _ mem => List.mem_append_left _ (List.mem_cons_of_mem _ (visitsFrom_subset first h mem))
    · rw [visitsFrom]
      exact fun _ mem => List.mem_append_right _ (visitsRest_subset rest h mem)

theorem visitsRest_subset {projected : Int} (children : List Expr) {level : Nat} {before : List Piece}
    {cursor : Cursor} {visit : Visit} (h : visit ∈ visitsRest settings projected children level before cursor) :
    visitsFrom settings visit.expr visit.level visit.before visit.cursor ⊆
      visitsRest settings projected children level before cursor := by
  match children with
  | [] => cases h
  | child :: rest =>
    rw [visitsRest] at h ⊢
    rcases List.mem_append.1 h with h | h
    · exact fun _ mem => List.mem_append_left _ (visitsFrom_subset child h mem)
    · exact fun _ mem => List.mem_append_right _ (visitsRest_subset rest h mem)

end

/-- The parts of an expression begin with itself. -/
theorem mem_visitsFrom_self (settings : Settings) (e : Expr) (level : Nat) (before : List Piece) (cursor : Cursor) :
    ⟨e, level, before, cursor⟩ ∈ visitsFrom settings e level before cursor := by
  match e with
  | atom a => exact List.mem_cons_self
  | nil => exact List.mem_cons_self
  | list [] => exact List.mem_cons_self
  | list (first :: rest) => exact List.mem_cons_self

/-! ### The children of a part -/

/-- The later children of a list as the layout comes to them, each behind its separator. -/
def laterChildren (settings : Settings) (projected : Int) : List Expr → Nat → List Piece → Cursor → List Visit
  | [], _, _, _ => []
  | child :: rest, level, before, cursor =>
    let front := before ++ separator settings projected cursor child
    let head := layout settings child cursor
    ⟨child, level, front, cursor⟩ :: laterChildren settings projected rest level (front ++ head.pieces) head.cursor

namespace Visit

/-- The projected width of the list that the part is. -/
def projected (settings : Settings) (visit : Visit) : Int :=
  visit.cursor.deeper.projected settings visit.expr.size

/-- The children of the part as the layout comes to them, if it is a list. -/
def children (settings : Settings) (visit : Visit) : List Visit :=
  match visit.expr with
  | list (first :: rest) =>
    let inside := visit.cursor.deeper.settle settings (visit.projected settings)
    let head := layout settings first inside
    ⟨first, visit.level + 1, visit.before ++ [.opening], inside⟩ ::
      laterChildren settings (visit.projected settings) rest (visit.level + 1) (visit.before ++ .opening :: head.pieces)
        head.cursor
  | _ => []

/-- A line end stands before the part. -/
def StartsLine (visit : Visit) : Prop := ∃ indentation, visit.before.getLast? = some (.newline indentation)

end Visit

theorem map_expr_laterChildren (settings : Settings) (projected : Int) (children : List Expr) (level : Nat)
    (before : List Piece) (cursor : Cursor) :
    (laterChildren settings projected children level before cursor).map Visit.expr = children := by
  induction children generalizing before cursor with
  | nil => rfl
  | cons child rest ih => rw [laterChildren, List.map_cons, ih]

/-- The children are those of the expression, in order. -/
theorem Visit.map_expr_children (settings : Settings) (visit : Visit) :
    (visit.children settings).map Visit.expr = visit.expr.children := by
  rcases visit with ⟨_ | _ | _ | ⟨first, rest⟩, level, before, cursor⟩
  · rfl
  · rfl
  · rfl
  · rw [Visit.children, List.map_cons, map_expr_laterChildren, Expr.children]

/-- Only a list that has children is a part with children. -/
theorem Visit.expr_of_mem_children {visit child : Visit} (mem : child ∈ visit.children settings) :
    ∃ first rest, visit.expr = list (first :: rest) := by
  rcases visit with ⟨_ | _ | _ | ⟨first, rest⟩, level, before, cursor⟩
  · cases mem
  · cases mem
  · cases mem
  · exact ⟨first, rest, rfl⟩

private theorem laterChildren_subset (settings : Settings) (projected : Int) (children : List Expr) (level : Nat)
    (before : List Piece) (cursor : Cursor) :
    laterChildren settings projected children level before cursor ⊆
      visitsRest settings projected children level before cursor := by
  induction children generalizing before cursor with
  | nil => exact List.Subset.refl _
  | cons child rest ih =>
    intro visit mem
    rw [laterChildren] at mem
    rw [visitsRest]
    rcases List.mem_cons.1 mem with rfl | mem
    · exact List.mem_append_left _ (mem_visitsFrom_self settings _ _ _ _)
    · exact List.mem_append_right _ (ih _ _ mem)

/-- The children of a part that the layout comes to are such parts. -/
theorem mem_visits_of_mem_children {e : Expr} {visit child : Visit} (h : visit ∈ e.visits settings)
    (mem : child ∈ visit.children settings) : child ∈ e.visits settings := by
  apply visitsFrom_subset e h
  obtain ⟨expr, level, before, cursor⟩ := visit
  obtain ⟨first, rest, rfl⟩ := Visit.expr_of_mem_children mem
  rw [visitsFrom]
  rcases List.mem_cons.1 mem with rfl | mem
  · exact List.mem_append_left _ (List.mem_cons_of_mem _ (mem_visitsFrom_self settings _ _ _ _))
  · exact List.mem_append_right _ (laterChildren_subset settings _ _ _ _ _ mem)

/-- The layout of the whole goes on with that of a child where it comes to the child. -/
theorem prefix_of_mem_children {e : Expr} {visit child : Visit} (h : visit ∈ e.visits settings)
    (mem : child ∈ visit.children settings) :
    child.before ++ (layout settings child.expr child.cursor).pieces <+: e.pieces settings :=
  prefix_of_mem_visitsFrom e (mem_visits_of_mem_children h mem)

/-! ### Separators -/

private theorem of_mem_laterChildren {projected : Int} {children : List Expr} {level : Nat} {before : List Piece}
    {cursor : Cursor} {child : Visit} (mem : child ∈ laterChildren settings projected children level before cursor) :
    child.level = level ∧
      ∃ front, child.before = front ++ separator settings projected child.cursor child.expr := by
  induction children generalizing before cursor with
  | nil => cases mem
  | cons first rest ih =>
    rw [laterChildren] at mem
    rcases List.mem_cons.1 mem with rfl | mem
    · exact ⟨rfl, before, rfl⟩
    · exact ih mem

namespace Visit

variable {visit child : Visit}

/-- Around a child there is one list more than around its list. -/
theorem level_of_mem_children (mem : child ∈ visit.children settings) : child.level = visit.level + 1 := by
  obtain ⟨expr, level, before, cursor⟩ := visit
  obtain ⟨first, rest, rfl⟩ := expr_of_mem_children mem
  rcases List.mem_cons.1 mem with rfl | mem
  · rfl
  · exact (of_mem_laterChildren mem).1

/-- The first child follows the opening parenthesis. -/
theorem before_of_mem_head? (mem : child ∈ (visit.children settings).head?) :
    child.before = visit.before ++ [.opening] := by
  obtain ⟨expr, level, before, cursor⟩ := visit
  obtain ⟨first, rest, rfl⟩ := expr_of_mem_children (List.mem_of_mem_head? mem)
  cases mem
  rfl

/-- A later child that is not nil follows its separator, which is a line end if the child breaks, and a space
otherwise. -/
theorem getLast?_before (mem : child ∈ (visit.children settings).tail) (visible : child.expr.isNil = false) :
    child.before.getLast? = some (if Breaks settings (visit.projected settings) child.cursor child.expr then
      .newline (child.cursor.padding settings + settings.indentSize).toNat else .space) := by
  obtain ⟨expr, level, before, cursor⟩ := visit
  obtain ⟨first, rest, rfl⟩ := expr_of_mem_children (List.mem_of_mem_tail mem)
  obtain ⟨front, same⟩ := (of_mem_laterChildren mem).2
  rw [same, separator, if_neg (by simp [visible])]
  split <;> exact List.getLast?_concat

theorem startsLine_iff (mem : child ∈ (visit.children settings).tail) (visible : child.expr.isNil = false) :
    child.StartsLine ↔ Breaks settings (visit.projected settings) child.cursor child.expr := by
  rw [StartsLine, getLast?_before mem visible]
  split
  · rename_i breaks
    exact ⟨fun _ => breaks, fun _ => ⟨_, rfl⟩⟩
  · rename_i inline
    exact ⟨nofun, fun breaks => absurd breaks inline⟩

end Visit

/-! ### The running width -/

mutual

theorem width_nonneg_of_mem_visitsFrom (hi : 0 ≤ settings.indentSize) (e : Expr) {level : Nat} {before : List Piece}
    {cursor : Cursor} (h : 0 ≤ cursor.width) :
    ∀ visit ∈ visitsFrom settings e level before cursor, 0 ≤ visit.cursor.width := by
  match e with
  | atom a => exact List.forall_mem_singleton.2 h
  | nil => exact List.forall_mem_singleton.2 h
  | list [] => exact List.forall_mem_singleton.2 h
  | list (first :: rest) =>
    have deeper : 0 ≤ cursor.deeper.width := h
    have settled := settle_width_nonneg hi deeper (cursor.deeper.projected settings (sizeAll (first :: rest)))
    rw [visitsFrom, List.forall_mem_append, List.forall_mem_cons]
    exact ⟨⟨h, width_nonneg_of_mem_visitsFrom hi first settled⟩,
      width_nonneg_of_mem_visitsRest hi rest (layout_width_nonneg hi first settled)⟩

theorem width_nonneg_of_mem_visitsRest (hi : 0 ≤ settings.indentSize) {projected : Int} (children : List Expr)
    {level : Nat} {before : List Piece} {cursor : Cursor} (h : 0 ≤ cursor.width) :
    ∀ visit ∈ visitsRest settings projected children level before cursor, 0 ≤ visit.cursor.width := by
  match children with
  | [] => exact nofun
  | child :: rest =>
    rw [visitsRest, List.forall_mem_append]
    exact ⟨width_nonneg_of_mem_visitsFrom hi child h,
      width_nonneg_of_mem_visitsRest hi rest (layout_width_nonneg hi child h)⟩

end

/-- The running width is never negative. -/
theorem width_nonneg_of_mem_visits (hi : 0 ≤ settings.indentSize) {e : Expr} {visit : Visit}
    (h : visit ∈ e.visits settings) : 0 ≤ visit.cursor.width :=
  width_nonneg_of_mem_visitsFrom hi e (Int.le_refl 0) visit h

end SExprLayout.Expr
