import SExprLayout.Proofs.Layout.Children

/-!
# The depth in any expression

In an expression made by hand, nil may stand anywhere or be missing, so that the depth drifts away from the number of
lists around a part, and may fall below zero.  It can still be counted: from left to right, each list with children
raises the depth by one and each nil lowers it by one.  Neither the settings nor the running width have a part in this.
So the depths at the parts of an expression are known from its parts alone (`map_depth_visitsFrom`), and so is the depth
behind it (`depth_layout`).

Each line end stands before a part of the expression, and it is indented for the depth at this part
(`exists_visit_of_newline`).  Both together are `depth_of_layout`.
-/

namespace SExprLayout

private theorem split_of_append_eq {α : Type} {xs ys front back : List α} {x : α} (h : xs ++ ys = front ++ x :: back) :
    (∃ inside, xs = front ++ x :: inside) ∨ ∃ later, front = xs ++ later ∧ ys = later ++ x :: back := by
  rcases List.append_eq_append_iff.1 h with ⟨later, e, rest⟩ | ⟨inside, e, rest⟩
  · exact .inr ⟨later, e, rest⟩
  · cases inside with
    | nil => exact .inr ⟨[], by rw [e, List.append_nil, List.append_nil], rest.symm⟩
    | cons y inside =>
      obtain ⟨rfl, -⟩ := List.cons.inj rest
      exact .inl ⟨inside, e⟩

private theorem of_singleton_eq {α : Type} {x y : α} {front back : List α} (h : [y] = front ++ x :: back) :
    front = [] ∧ y = x ∧ back = [] := by
  cases front with
  | nil =>
    cases h
    exact ⟨rfl, rfl, rfl⟩
  | cons z front => simp at h

/-- The padding at a depth that may be negative. -/
theorem Cursor.padding_eq_max (settings : Settings) (cursor : Cursor) :
    cursor.padding settings = max (cursor.depth - 1) 0 * settings.indentSize := by
  unfold padding
  split
  · rw [Int.max_eq_right (by omega), Int.zero_mul]
  · rw [Int.max_eq_left (by omega)]

namespace Expr

variable {settings : Settings}

/-! ### Counting -/

/-- The expression is a list that has children. -/
def isFull : Expr → Bool
  | list (_ :: _) => true
  | _ => false

/-- By how much the depth is moved by expressions to which the layout comes in a row, each on its own account. -/
def drift (row : List Expr) : Int := (row.countP isFull : Int) - row.countP isNil

/-- The depth at each of the expressions in a row, from the one at the first. -/
def depths (depth : Int) : List Expr → List Int
  | [] => []
  | e :: rest => depth :: depths (depth + drift [e]) rest

theorem drift_append (before after : List Expr) : drift (before ++ after) = drift before + drift after := by
  simp only [drift, List.countP_append]
  omega

theorem drift_cons (e : Expr) (rest : List Expr) : drift (e :: rest) = drift [e] + drift rest := drift_append [e] rest

theorem depths_append (depth : Int) (before after : List Expr) :
    depths depth (before ++ after) = depths depth before ++ depths (depth + drift before) after := by
  induction before generalizing depth with
  | nil => rw [List.nil_append, show drift [] = 0 from rfl, Int.add_zero, depths, List.nil_append]
  | cons e before ih =>
    rw [List.cons_append, depths, depths, ih, drift_cons e before, Int.add_assoc, List.cons_append]

/-- The depth at an expression in a row is moved by those before it. -/
theorem eq_of_getElem?_depths {start depth : Int} {row : List Expr} {k : Nat}
    (h : (depths start row)[k]? = some depth) : depth = start + drift (row.take k) := by
  induction row generalizing start k with
  | nil => cases h
  | cons e row ih =>
    cases k with
    | zero =>
      cases h
      exact (Int.add_zero _).symm
    | succ k =>
      rw [depths, List.getElem?_cons_succ] at h
      rw [ih h, List.take_succ_cons, drift_cons e (row.take k), Int.add_assoc]

/-! ### The depth behind an expression and at its parts -/

theorem drift_list_cons (first : Expr) (rest : List Expr) :
    drift (list (first :: rest) :: (list (first :: rest)).beneath) =
      1 + (drift (first :: first.beneath) + drift (beneathAll rest)) := by
  have own : drift [list (first :: rest)] = 1 := rfl
  rw [drift_cons, own, ← drift_append]
  rfl

mutual

/-- Behind an expression, the depth was moved by all of its parts. -/
theorem depth_layout (settings : Settings) (e : Expr) (cursor : Cursor) :
    (layout settings e cursor).cursor.depth = cursor.depth + drift (e :: e.beneath) := by
  match e with
  | atom a => exact (Int.add_zero _).symm
  | nil => rfl
  | list [] => exact (Int.add_zero _).symm
  | list (first :: rest) =>
    have deeper : cursor.deeper.depth = cursor.depth + 1 := rfl
    rw [layout, depth_layoutRest settings _ rest, depth_layout settings first, depth_settle, drift_list_cons, deeper]
    omega

theorem depth_layoutRest (settings : Settings) (projected : Int) (children : List Expr) (cursor : Cursor) :
    (layoutRest settings projected children cursor).cursor.depth = cursor.depth + drift (beneathAll children) := by
  match children with
  | [] => exact (Int.add_zero _).symm
  | child :: rest =>
    rw [layoutRest, depth_layoutRest settings projected rest, depth_layout settings child, beneathAll, drift_append]
    omega

end

mutual

/-- The depth at each part of an expression was moved by the parts before it. -/
theorem map_depth_visitsFrom (settings : Settings) (e : Expr) (level : Nat) (before : List Piece) (cursor : Cursor) :
    (visitsFrom settings e level before cursor).map (fun visit => visit.cursor.depth) =
      depths cursor.depth (e :: e.beneath) := by
  match e with
  | atom a => rfl
  | nil => rfl
  | list [] => rfl
  | list (first :: rest) =>
    have inner := depths_append (cursor.depth + 1) (first :: first.beneath) (beneathAll rest)
    rw [visitsFrom, List.map_append, List.map_cons, map_depth_visitsFrom settings first,
      map_depth_visitsRest settings _ rest, depth_layout, depth_settle]
    exact congrArg (cursor.depth :: ·) inner.symm

theorem map_depth_visitsRest (settings : Settings) (projected : Int) (children : List Expr) (level : Nat)
    (before : List Piece) (cursor : Cursor) :
    (visitsRest settings projected children level before cursor).map (fun visit => visit.cursor.depth) =
      depths cursor.depth (beneathAll children) := by
  match children with
  | [] => rfl
  | child :: rest =>
    rw [visitsRest, List.map_append, map_depth_visitsFrom settings child, map_depth_visitsRest settings _ rest,
      depth_layout, beneathAll, depths_append]

end

/-! ### Line ends -/

/-- A separator that holds a line end holds nothing else. -/
private theorem eq_of_separator_eq {projected : Int} {cursor : Cursor} {child : Expr} {front back : List Piece}
    {indentation : Nat} (h : separator settings projected cursor child = front ++ .newline indentation :: back) :
    front = [] ∧ back = [] ∧ indentation = (cursor.padding settings + settings.indentSize).toNat := by
  unfold separator at h
  split at h
  · simp at h
  · split at h
    · obtain ⟨rfl, ⟨⟩, rfl⟩ := of_singleton_eq h
      exact ⟨rfl, rfl, rfl⟩
    · obtain ⟨-, ⟨⟩, -⟩ := of_singleton_eq h

mutual

/-- Each line end stands before a part of the expression, and it is indented for the depth there. -/
theorem exists_visit_of_newline (e : Expr) (level : Nat) (before : List Piece) {cursor : Cursor}
    {front back : List Piece} {indentation : Nat}
    (h : (layout settings e cursor).pieces = front ++ .newline indentation :: back) :
    ∃ visit ∈ visitsFrom settings e level before cursor, visit.before = before ++ front ++ [.newline indentation] ∧
      indentation = (visit.cursor.padding settings + settings.indentSize).toNat := by
  match e with
  | atom a => obtain ⟨-, ⟨⟩, -⟩ := of_singleton_eq h
  | nil => simp [layout] at h
  | list [] => obtain ⟨-, ⟨⟩, -⟩ := of_singleton_eq h
  | list (first :: rest) =>
    let inside := cursor.deeper.settle settings (cursor.deeper.projected settings (sizeAll (first :: rest)))
    rw [layout, List.cons_append, List.cons_append, List.append_assoc, ← List.singleton_append] at h
    rw [visitsFrom]
    rcases split_of_append_eq h with ⟨_, opens⟩ | ⟨front, rfl, inner⟩
    · obtain ⟨-, ⟨⟩, -⟩ := of_singleton_eq opens
    rcases split_of_append_eq inner with ⟨_, head⟩ | ⟨front, rfl, behind⟩
    · obtain ⟨visit, mem, same, columns⟩ := exists_visit_of_newline first (level + 1) (before ++ [.opening]) head
      exact ⟨visit, List.mem_append_left _ (List.mem_cons_of_mem _ mem), by simp [same], columns⟩
    rcases split_of_append_eq behind with ⟨_, tail⟩ | ⟨front, rfl, closes⟩
    · obtain ⟨visit, mem, same, columns⟩ := exists_visitRest_of_newline rest (level + 1)
        (before ++ .opening :: (layout settings first inside).pieces) tail
      exact ⟨visit, List.mem_append_right _ mem, by simp [same, inside], columns⟩
    · obtain ⟨-, ⟨⟩, -⟩ := of_singleton_eq closes

theorem exists_visitRest_of_newline {projected : Int} (children : List Expr) (level : Nat) (before : List Piece)
    {cursor : Cursor} {front back : List Piece} {indentation : Nat}
    (h : (layoutRest settings projected children cursor).pieces = front ++ .newline indentation :: back) :
    ∃ visit ∈ visitsRest settings projected children level before cursor,
      visit.before = before ++ front ++ [.newline indentation] ∧
      indentation = (visit.cursor.padding settings + settings.indentSize).toNat := by
  match children with
  | [] => simp [layoutRest] at h
  | child :: rest =>
    let gap := separator settings projected cursor child
    rw [layoutRest, List.append_assoc] at h
    rw [visitsRest]
    rcases split_of_append_eq h with ⟨_, isGap⟩ | ⟨front, rfl, behind⟩
    · obtain ⟨rfl, rfl, columns⟩ := eq_of_separator_eq isGap
      exact ⟨_, List.mem_append_left _ (mem_visitsFrom_self settings child level (before ++ gap) cursor),
        by simp [gap, isGap], columns⟩
    rcases split_of_append_eq behind with ⟨_, head⟩ | ⟨front, rfl, tail⟩
    · obtain ⟨visit, mem, same, columns⟩ := exists_visit_of_newline child level (before ++ gap) head
      exact ⟨visit, List.mem_append_left _ mem, by simp [same, gap], columns⟩
    · obtain ⟨visit, mem, same, columns⟩ := exists_visitRest_of_newline rest level
        (before ++ gap ++ (layout settings child cursor).pieces) tail
      exact ⟨visit, List.mem_append_right _ mem, by simp [same, gap], columns⟩

end

/-- In any expression and from any cursor, the depth behind the expression is moved by its lists with children, each up
by one, and its nils, each down by one, and the depth at each part by those that come before it from left to right.
Each line end stands before a part, and its indentation is that of the depth at this part, or empty where this comes out
negative.
Neither the padding nor the running width is ever negative if the indent size and the width at the start are not. -/
theorem depth_of_layout (e : Expr) (settings : Settings) (cursor : Cursor) :
    ((layout settings e cursor).cursor.depth =
      cursor.depth + (e :: e.beneath).countP isFull - (e :: e.beneath).countP isNil) ∧
    (∀ (k : Nat) (visit : Visit), (visitsFrom settings e 0 [] cursor)[k]? = some visit →
      (e :: e.beneath)[k]? = some visit.expr ∧
      visit.before ++ (layout settings visit.expr visit.cursor).pieces <+: (layout settings e cursor).pieces ∧
      visit.cursor.depth = cursor.depth + ((e :: e.beneath).take k).countP isFull -
        ((e :: e.beneath).take k).countP isNil) ∧
    (∀ (front : List Piece) (indentation : Nat) (back : List Piece),
      (layout settings e cursor).pieces = front ++ .newline indentation :: back →
      ∃ (k : Nat) (visit : Visit), (visitsFrom settings e 0 [] cursor)[k]? = some visit ∧
        visit.before = front ++ [.newline indentation] ∧
        indentation = max 0 (max (visit.cursor.depth - 1) 0 * settings.indentSize + settings.indentSize)) ∧
    (0 ≤ settings.indentSize → 0 ≤ cursor.width →
      (∀ cursor' : Cursor, 0 ≤ cursor'.padding settings) ∧
      ∀ visit ∈ visitsFrom settings e 0 [] cursor,
        0 ≤ visit.cursor.width ∧ 0 ≤ (layout settings visit.expr visit.cursor).cursor.width) := by
  refine ⟨?_, fun k visit h => ⟨?_, ?_, ?_⟩, fun front indentation back split => ?_, fun hi hv => ⟨?_, ?_⟩⟩
  · rw [depth_layout, drift]
    omega
  · rw [← map_expr_visitsFrom settings e 0 [] cursor, List.getElem?_map, h]
    rfl
  · exact prefix_of_mem_visitsFrom e (List.mem_of_getElem? h)
  · have depth : (depths cursor.depth (e :: e.beneath))[k]? = some visit.cursor.depth := by
      rw [← map_depth_visitsFrom settings e 0 [] cursor, List.getElem?_map, h]
      rfl
    rw [eq_of_getElem?_depths depth, drift]
    omega
  · obtain ⟨visit, mem, same, columns⟩ := exists_visit_of_newline e 0 [] split
    obtain ⟨k, h⟩ := List.getElem?_of_mem mem
    refine ⟨k, visit, h, same, ?_⟩
    rw [columns, ← Cursor.padding_eq_max, Int.toNat_eq_max, Int.max_comm]
  · exact Cursor.padding_nonneg hi
  · intro visit mem
    have width : 0 ≤ visit.cursor.width := width_nonneg_of_mem_visitsFrom hi e hv visit mem
    exact ⟨width, layout_width_nonneg hi visit.expr width⟩

/-- From depth -1 and without a nil, four lists bring `b` to depth 3, and five nils bring `c` to depth -2. -/
theorem depth_of_layout_drifting :
    let e : Expr := list [list [list [list [.atom ⟨"a", by decide⟩]]], .atom ⟨"b", by decide⟩, nil, nil, nil, nil, nil,
      .atom ⟨"c", by decide⟩]
    let front : List Piece := [.opening, .opening, .opening, .opening, .atom ⟨"a", by decide⟩, .closing, .closing,
      .closing]
    (layout ⟨0, 2⟩ e ⟨3, -1⟩).pieces =
        front ++ [.newline 6, .atom ⟨"b", by decide⟩, .newline 2, .atom ⟨"c", by decide⟩, .closing] ∧
      (layout ⟨0, 2⟩ e ⟨3, -1⟩).cursor.depth = -2 ∧
      (∃ (k : Nat) (visit : Visit), (visitsFrom ⟨0, 2⟩ e 0 [] ⟨3, -1⟩)[k]? = some visit ∧
        visit.before = front ++ [.newline 6] ∧ (6 : Nat) = max 0 (max (visit.cursor.depth - 1) 0 * 2 + 2)) ∧
      ∀ visit ∈ visitsFrom ⟨0, 2⟩ e 0 [] ⟨3, -1⟩, 0 ≤ visit.cursor.width := by
  intro e front
  obtain ⟨-, -, lineEnds, nonneg⟩ := depth_of_layout e ⟨0, 2⟩ ⟨3, -1⟩
  have written : (layout ⟨0, 2⟩ e ⟨3, -1⟩).pieces =
      front ++ [.newline 6, .atom ⟨"b", by decide⟩, .newline 2, .atom ⟨"c", by decide⟩, .closing] := by
    decide
  obtain ⟨-, widths⟩ := nonneg (by decide) (by decide)
  exact ⟨written, by decide, lineEnds front 6 _ written, fun visit mem => (widths visit mem).1⟩

end Expr

end SExprLayout
