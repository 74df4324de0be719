import SExprLayout.Proofs.Indentation
import SExprLayout.Proofs.Layout.Children

/-!
# Which children start a line

The size of a child counts twice when its separator is chosen: on its own account and in the size of the list, which is
part of the projected width.  Neither the running width nor the padding is negative.  So a child that is larger than
half the maximum width starts a line, in any expression (`startsLine_of_half_lt_size`).

In what is read from a source, the depth is the number of lists around the child when its separator is chosen, whatever
the earlier children of the list were.  So the padding is the same for all children of a list, and the projected width
does not change on the way.  What remains is one bound for all of them: the children that start a line are those whose
size is above it (`startsLine_iff_lt_size`).  For the outermost list, which begins at the running width zero and has no
padding, the bound is the maximum width without the size of the list.
-/

namespace SExprLayout

/-- Inside one list more than there are levels, the padding is that of the levels. -/
theorem Cursor.padding_of_depth {settings : Settings} {cursor : Cursor} {level : Nat}
    (depth : cursor.depth = (level + 1 : Nat)) : cursor.padding settings = level * settings.indentSize := by
  rw [padding, depth, if_neg (by omega), Int.natCast_add, Int.natCast_one, Int.add_sub_cancel]

namespace Expr

variable {settings : Settings} {visit child : Visit}

/-- A list is at least as large as each of its children. -/
theorem size_le_of_mem_children {e part : Expr} (mem : part ∈ e.children) : part.size ≤ e.size := by
  match e with
  | atom _ => cases mem
  | nil => cases mem
  | list children => exact size_le_of_mem mem

theorem Visit.size_le_of_mem_children (mem : child ∈ visit.children settings) :
    child.expr.size ≤ visit.expr.size := by
  apply Expr.size_le_of_mem_children
  rw [← map_expr_children settings visit]
  exact List.mem_map_of_mem mem

/-! ### Children larger than half the width -/

/-- A child that is larger than half the maximum width breaks, since its list is at least as large. -/
theorem Visit.breaks_of_half_lt_size (hi : 0 ≤ settings.indentSize) {e : Expr} (h : visit ∈ e.visits settings)
    (mem : child ∈ visit.children settings) (large : settings.maxWidth / 2 < child.expr.size) :
    Breaks settings (visit.projected settings) child.cursor child.expr := by
  have width : 0 ≤ visit.cursor.deeper.width := width_nonneg_of_mem_visits hi h
  have outer : 0 ≤ visit.cursor.deeper.padding settings := Cursor.padding_nonneg hi _
  have inner : 0 ≤ child.cursor.padding settings := Cursor.padding_nonneg hi _
  have within : child.expr.size ≤ visit.expr.size := size_le_of_mem_children mem
  -- half the width is rounded down, so nothing is lost for an odd width
  have twice : settings.maxWidth < child.expr.size + child.expr.size := by omega
  unfold Breaks Visit.projected Cursor.projected
  omega

/-- In what is read from a source, the padding at a child is that of the lists around its own list. -/
theorem Visit.padding_of_mem_children {source : Argument} {e : Expr} (read : ofArgument source = .ok e)
    (h : visit ∈ e.visits settings) (mem : child ∈ visit.children settings) :
    child.cursor.padding settings = visit.level * settings.indentSize := by
  obtain ⟨bytes, -, parsed⟩ := ofArgument_eq_ok_iff.1 read
  have depth := depth_of_mem_visits parsed settings child (mem_visits_of_mem_children h mem)
  rw [level_of_mem_children mem] at depth
  exact Cursor.padding_of_depth depth

/-- In what is read from a source, the padding inside a list is that of the lists around it. -/
theorem Visit.padding_deeper {source : Argument} {e : Expr} (read : ofArgument source = .ok e)
    (h : visit ∈ e.visits settings) : visit.cursor.deeper.padding settings = visit.level * settings.indentSize := by
  obtain ⟨bytes, -, parsed⟩ := ofArgument_eq_ok_iff.1 read
  have depth : visit.cursor.depth = visit.level := depth_of_mem_visits parsed settings visit h
  exact Cursor.padding_of_depth (congrArg (· + 1) depth)

/-- In any expression, each later child of a list that is not nil and is larger than half the maximum width has a line
end before it.  In what is read from a source, behind this line end stand as many levels of indentation as there are
lists around the child. -/
theorem startsLine_of_half_lt_size (e : Expr) (hi : 0 ≤ settings.indentSize) :
    (e.visits settings).map Visit.expr = e :: e.beneath ∧
    ∀ visit ∈ e.visits settings, (visit.children settings).map Visit.expr = visit.expr.children ∧
      ∀ child ∈ (visit.children settings).tail, child.expr.isNil = false → settings.maxWidth / 2 < child.expr.size →
        child.before ++ (child.expr.layout settings child.cursor).pieces <+: e.pieces settings ∧
        child.level = visit.level + 1 ∧
        ∃ indentation, child.before.getLast? = some (.newline indentation) ∧
          ∀ source, ofArgument source = .ok e → indentation = child.level * settings.indentSize := by
  refine ⟨map_expr_visits settings e, fun visit h => ⟨visit.map_expr_children settings, ?_⟩⟩
  intro child later visible large
  have mem : child ∈ visit.children settings := List.mem_of_mem_tail later
  have breaks := Visit.breaks_of_half_lt_size hi h mem large
  have level : child.level = visit.level + 1 := Visit.level_of_mem_children mem
  refine ⟨prefix_of_mem_children h mem, level, (child.cursor.padding settings + settings.indentSize).toNat, ?_, ?_⟩
  · rw [Visit.getLast?_before later visible, if_pos breaks]
  · intro source read
    have padding := Visit.padding_of_mem_children read h mem
    have nonneg : 0 ≤ child.cursor.padding settings := Cursor.padding_nonneg hi _
    have columns : child.level * settings.indentSize = child.cursor.padding settings + settings.indentSize := by
      rw [level, padding, Int.natCast_add, Int.natCast_one, Int.add_mul, Int.one_mul]
    rw [columns]
    exact Int.toNat_of_nonneg (Int.add_nonneg nonneg hi)

theorem startsLine_of_half_lt_size_nested :
    ∃ e, ofArgument (.text "(f (a bcdef))") = .ok e ∧
      ∃ visit ∈ e.visits ⟨7, 2⟩, ∃ child ∈ (visit.children ⟨7, 2⟩).tail,
        child.expr = .atom ⟨"bcdef", by decide⟩ ∧ (7 : Int) / 2 < child.expr.size ∧
          child.before.getLast? = some (.newline 4) := by
  let e : Expr := .list [.atom ⟨"f", by decide⟩,
    .list [.atom ⟨"a", by decide⟩, .atom ⟨"bcdef", by decide⟩, .nil], .nil]
  have read : ofArgument (.text "(f (a bcdef))") = .ok e := by decide
  let inner : Visit := ⟨.list [.atom ⟨"a", by decide⟩, .atom ⟨"bcdef", by decide⟩, .nil], 1,
    [.opening, .atom ⟨"f", by decide⟩, .newline 2], ⟨1, 1⟩⟩
  have isPart : inner ∈ e.visits ⟨7, 2⟩ := List.mem_of_getElem? (show (e.visits ⟨7, 2⟩)[2]? = some inner from rfl)
  obtain ⟨child, isLater, same⟩ : ∃ child ∈ (inner.children ⟨7, 2⟩).tail, child.expr = .atom ⟨"bcdef", by decide⟩ :=
    ⟨_, List.mem_cons_self, rfl⟩
  have large : (7 : Int) / 2 < child.expr.size := by
    rw [same]
    decide
  obtain ⟨-, level, indentation, starts, columns⟩ := ((startsLine_of_half_lt_size e
    (show (0 : Int) ≤ 2 by decide)).2 inner isPart).2 child isLater (by rw [same]; rfl) large
  obtain rfl : indentation = 4 := by
    have columns := columns _ read
    rw [level] at columns
    exact Int.ofNat.inj columns
  exact ⟨e, read, inner, isPart, child, isLater, same, large, starts⟩

/-! ### One bound for each list -/

/-- The expression itself as the layout comes to it. -/
def Visit.whole (e : Expr) : Visit := ⟨e, 0, [], Cursor.start⟩

theorem Visit.whole_mem_visits (settings : Settings) (e : Expr) : whole e ∈ e.visits settings :=
  mem_visitsFrom_self settings e 0 [] Cursor.start

/-- In what is read from a source, a later child starts a line if its size is above what the maximum width leaves to the
running width, the size of the list, and the padding, which counts for the list and for the child. -/
theorem Visit.startsLine_iff_of_parse {source : Argument} {e : Expr} (read : ofArgument source = .ok e)
    (h : visit ∈ e.visits settings) (later : child ∈ (visit.children settings).tail)
    (visible : child.expr.isNil = false) :
    child.StartsLine ↔
      settings.maxWidth - (visit.cursor.width + 2 * visit.level * settings.indentSize + visit.expr.size) <
        child.expr.size := by
  have inner := padding_of_mem_children read h (List.mem_of_mem_tail later)
  have outer := padding_deeper read h
  have twice : 2 * visit.level * settings.indentSize =
      visit.level * settings.indentSize + visit.level * settings.indentSize := by
    rw [Int.mul_assoc, Int.two_mul]
  rw [startsLine_iff later visible, Breaks, Visit.projected, Cursor.projected, inner, outer, twice,
    show visit.cursor.deeper.width = visit.cursor.width from rfl]
  omega

/-- In what is read from a source, one bound for each list decides which of its later children start a line, nil aside:
those that are larger than what the maximum width leaves to the running width at which the list begins, twice the
padding of the list, and the size of the list.  Before the others stands a space, and with a child that starts a line,
all later children at least as large start one.  The bound of the outermost list is the maximum width without its size,
for all indent sizes, so a greater maximum width adds no line end there. -/
theorem startsLine_iff_lt_size {source : Argument} {e : Expr} (read : ofArgument source = .ok e) :
    (∀ settings : Settings, (e.visits settings).map Visit.expr = e :: e.beneath ∧
      ∀ visit ∈ e.visits settings, (visit.children settings).map Visit.expr = visit.expr.children ∧
        ∀ child ∈ (visit.children settings).tail, child.expr.isNil = false →
          child.before ++ (child.expr.layout settings child.cursor).pieces <+: e.pieces settings ∧
          (child.StartsLine ↔
            settings.maxWidth - (visit.cursor.width + 2 * visit.level * settings.indentSize + visit.expr.size) <
              child.expr.size) ∧
          (¬child.StartsLine → child.before.getLast? = some .space) ∧
          ∀ sibling ∈ (visit.children settings).tail, sibling.expr.isNil = false →
            child.expr.size ≤ sibling.expr.size → child.StartsLine → sibling.StartsLine) ∧
    (∀ settings : Settings, ∀ child ∈ ((Visit.whole e).children settings).tail, child.expr.isNil = false →
      (child.StartsLine ↔ settings.maxWidth < e.size + child.expr.size)) ∧
    ∀ settings settings' : Settings, settings.maxWidth ≤ settings'.maxWidth →
      ∀ child ∈ ((Visit.whole e).children settings).tail, ∀ child' ∈ ((Visit.whole e).children settings').tail,
        child.expr = child'.expr → child.expr.isNil = false → child'.StartsLine → child.StartsLine := by
  have outermost : ∀ settings : Settings, ∀ child ∈ ((Visit.whole e).children settings).tail,
      child.expr.isNil = false → (child.StartsLine ↔ settings.maxWidth < e.size + child.expr.size) := by
    intro settings child later visible
    have bound := Visit.startsLine_iff_of_parse read (Visit.whole_mem_visits settings e) later visible
    simp only [Visit.whole, Cursor.start, Int.natCast_zero, Int.mul_zero, Int.zero_mul, Int.zero_add] at bound
    rw [bound]
    omega
  refine ⟨fun settings => ⟨map_expr_visits settings e, fun visit h => ⟨visit.map_expr_children settings, ?_⟩⟩,
    outermost, ?_⟩
  · intro child later visible
    have bound := Visit.startsLine_iff_of_parse read h later visible
    refine ⟨prefix_of_mem_children h (List.mem_of_mem_tail later), bound, fun inline => ?_, ?_⟩
    · rw [Visit.startsLine_iff later visible] at inline
      rw [Visit.getLast?_before later visible, if_neg inline]
    · intro sibling later' visible' larger starts
      rw [Visit.startsLine_iff_of_parse read h later' visible']
      have := bound.1 starts
      omega
  · intro settings settings' wider child later child' later' same visible starts
    have starts := (outermost settings' child' later' (same ▸ visible)).1 starts
    rw [← same] at starts
    rw [outermost settings child later visible]
    omega

/-- In `(c d (e) ff)`, which begins at the running width 2, only what is larger than 1 starts a line. -/
theorem startsLine_iff_lt_size_nested :
    ∃ e, ofArgument (.text "(ab (c d (e) ff) g)") = .ok e ∧ e.format ⟨10, 1⟩ = "(ab\n (c d (e)\n  ff) g)" ∧
      ∃ visit ∈ e.visits ⟨10, 1⟩, visit.expr.size = 5 ∧ visit.cursor.width = 2 ∧
        ∀ child ∈ (visit.children ⟨10, 1⟩).tail, child.expr.isNil = false →
          (child.StartsLine ↔ 1 < child.expr.size) := by
  let inner : Expr := .list [.atom ⟨"c", by decide⟩, .atom ⟨"d", by decide⟩, .list [.atom ⟨"e", by decide⟩, .nil],
    .atom ⟨"ff", by decide⟩, .nil]
  let e : Expr := .list [.atom ⟨"ab", by decide⟩, inner, .atom ⟨"g", by decide⟩, .nil]
  have read : ofArgument (.text "(ab (c d (e) ff) g)") = .ok e := by decide
  let visit : Visit := ⟨inner, 1, [.opening, .atom ⟨"ab", by decide⟩, .newline 1], ⟨2, 1⟩⟩
  have isPart : visit ∈ e.visits ⟨10, 1⟩ := List.mem_of_getElem? (show (e.visits ⟨10, 1⟩)[2]? = some visit from rfl)
  refine ⟨e, read, by decide, visit, isPart, rfl, rfl, ?_⟩
  intro child later visible
  obtain ⟨-, bound, -⟩ := (((startsLine_iff_lt_size read).1 ⟨10, 1⟩).2 visit isPart).2 child later visible
  rw [bound, show visit.expr.size = 5 from rfl]
  simp only [visit]
  omega

end Expr

end SExprLayout
