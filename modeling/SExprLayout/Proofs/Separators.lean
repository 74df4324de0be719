import SExprLayout.Layout.Print
import SExprLayout.Proofs.Layout.Children
import SExprLayout.Proofs.Layout.Wrapped

/-!
# What the settings decide

The settings of a layout, negative ones included, decide which separators are line ends and how far the lines behind
them are indented, and nothing else.  With a single space for the two writes of each line end, the writes of a layout
are those of the expression on one line, which depend on no settings and on no cursor (`writes_unbroken`).  So
parentheses and atoms are written in one order for all settings.
-/

namespace SExprLayout

/-- What is neither a space nor a line end is not changed. -/
theorem Piece.filter_isGap_unbroken (pieces : List Piece) :
    (pieces.map unbroken).filter (!·.isGap) = pieces.filter (!·.isGap) := by
  induction pieces with
  | nil => rfl
  | cons piece pieces ih =>
    rw [List.map_cons, List.filter_cons, List.filter_cons, ih]
    cases piece <;> rfl

namespace Expr

/-! ### Writes on one line -/

mutual

/-- The texts that an expression is written as on one line, one for each write. -/
def oneLineWrites : Expr → List String
  | atom a => [a.text]
  | nil => []
  | list [] => ["()"]
  | list (first :: rest) => "(" :: first.oneLineWrites ++ oneLineWritesRest rest ++ [")"]

/-- The texts that the later children of a list are written as on one line, each but nil after a space. -/
def oneLineWritesRest : List Expr → List String
  | [] => []
  | child :: rest => (if child.isNil then [] else [" "]) ++ child.oneLineWrites ++ oneLineWritesRest rest

end

mutual

theorem flatMap_writes_flat (e : Expr) : (flat e).flatMap Piece.writes = e.oneLineWrites := by
  match e with
  | atom a => rfl
  | nil => rfl
  | list [] => rfl
  | list (first :: rest) =>
    rw [flat, List.flatMap_append, List.cons_append, List.flatMap_cons, List.flatMap_append,
      flatMap_writes_flat first, flatMap_writes_flatRest rest]
    rfl

theorem flatMap_writes_flatRest (children : List Expr) :
    (flatRest children).flatMap Piece.writes = oneLineWritesRest children := by
  match children with
  | [] => rfl
  | child :: rest =>
    have gap : (if child.isNil then [] else [Piece.space]).flatMap Piece.writes =
        if child.isNil then [] else [" "] := by
      split <;> rfl
    rw [flatRest, List.flatMap_append, List.flatMap_append, gap, flatMap_writes_flat child,
      flatMap_writes_flatRest rest]
    rfl

end

/-- Atoms and parentheses are those of the one-line layout. -/
theorem filter_isGap_pieces (settings : Settings) (e : Expr) :
    (e.pieces settings).filter (!·.isGap) = e.flat.filter (!·.isGap) := by
  rw [← Piece.filter_isGap_unbroken, pieces, map_unbroken_layout]

/-- For all settings, a layout with a single space for the two writes of each line end is written as the expression on
one line, and parentheses and atoms are in the same order.  The first child of a list follows the opening parenthesis.
Before each later child but nil stands a space or a line end, whose indentation is empty for a count that is not
positive.  Formatting answers all writes together, and printing adds them to what the output holds. -/
theorem writes_unbroken (e : Expr) (settings : Settings) :
    ((e.pieces settings).map Piece.unbroken).flatMap Piece.writes = e.oneLineWrites ∧
    (∀ settings' : Settings, (e.pieces settings).filter (!·.isGap) = (e.pieces settings').filter (!·.isGap)) ∧
    (∀ visit ∈ e.visits settings,
      (∀ child ∈ (visit.children settings).head?, child.before = visit.before ++ [.opening] ∧
        child.before ++ (child.expr.layout settings child.cursor).pieces <+: e.pieces settings) ∧
      ∀ child ∈ (visit.children settings).tail, child.expr.isNil = false →
        child.before.getLast? = some .space ∨
          child.before.getLast? = some (.newline (child.cursor.padding settings + settings.indentSize).toNat)) ∧
    (∀ count : Int, count ≤ 0 → (Piece.newline count.toNat).writes = ["\n", ""]) ∧
    e.format settings = String.join (e.writes settings) ∧
    ∀ output, e.printTo settings output = output ++ String.join (e.writes settings) := by
  refine ⟨?_, fun settings' => ?_, fun visit h => ⟨fun child first => ?_, fun child later visible => ?_⟩, ?_, rfl,
    fun output => printTo_eq settings output e⟩
  · rw [pieces, map_unbroken_layout, flatMap_writes_flat]
  · rw [filter_isGap_pieces, filter_isGap_pieces]
  · exact ⟨Visit.before_of_mem_head? first, prefix_of_mem_children h (List.mem_of_mem_head? first)⟩
  · rw [Visit.getLast?_before later visible]
    split
    · exact .inr rfl
    · exact .inl rfl
  · intro count none
    rw [Int.toNat_of_nonpos none]
    rfl

/-- Nil moves the depth below zero, and the indent size is negative.  The line ends are written with empty indentations,
and with spaces in their place the texts of the atoms, a line end among them, stay. -/
theorem writes_unbroken_drifting :
    let e : Expr := list [nil, .atom ⟨"a", by decide⟩,
      list [nil, nil, nil, .atom ⟨"b c", by decide⟩, .atom ⟨"\n", by decide⟩], list []]
    e.writes ⟨5, -2⟩ =
        ["(", "\n", "", "a", "\n", "", "(", "\n", "", "b c", "\n", "", "\n", ")", " ", "()", ")"] ∧
      ((e.pieces ⟨5, -2⟩).map Piece.unbroken).flatMap Piece.writes =
        ["(", " ", "a", " ", "(", " ", "b c", " ", "\n", ")", " ", "()", ")"] ∧
      (∀ first ∈ (Visit.children ⟨5, -2⟩ ⟨e, 0, [], Cursor.start⟩).head?, first.before = [.opening]) ∧
      (Piece.newline (-2 : Int).toNat).writes = ["\n", ""] := by
  intro e
  obtain ⟨oneLine, -, children, indentation, -⟩ := writes_unbroken e ⟨5, -2⟩
  have outermost : ⟨e, 0, [], Cursor.start⟩ ∈ e.visits ⟨5, -2⟩ := mem_visitsFrom_self _ e 0 [] Cursor.start
  refine ⟨by decide, ?_, fun first isFirst => ((children _ outermost).1 first isFirst).1, indentation (-2) (by decide)⟩
  rw [oneLine]
  rfl

end Expr

end SExprLayout
