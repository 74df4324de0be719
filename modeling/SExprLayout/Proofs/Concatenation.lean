import SExprLayout.Proofs.Expr.Alike
import SExprLayout.Proofs.Expr.Parsed

/-!
# Reading sources in a row

If a source leaves no parenthesis open and no atom runs over the seam, then what follows it does not change what it is
read as.  The nodes at the top level of both are those of the first source and, further on, those of the second; and if
the first source has a token at all, it alone decides what is parsed, whatever follows (`topLevel_append`).
-/

namespace SExprLayout

namespace Node

/-- The nodes at the top level of a source; a source without a token has none. -/
def topLevel (source : List UInt8) : List Node :=
  match read source with
  | .ok root => root.children
  | .error _ => []

theorem topLevel_eq (source : List UInt8) : topLevel source = forest (tokens source) := by
  by_cases none : tokens source = []
  · rw [topLevel, read, none]
    rfl
  · rw [topLevel, read_of_tokens_ne_nil none]

/-- Exactly a source without a token has no tree. -/
theorem exists_read_iff {source : List UInt8} : (∃ root, read source = .ok root) ↔ tokens source ≠ [] := by
  simp only [read_eq_ok_iff, exists_and_left, exists_eq, and_true]

end Node

/-- The first source decides what is parsed. -/
theorem Expr.parse_append {before after : List UInt8} (apart : Apart before after)
    (closed : neverClosed (tokens before) = []) (some : tokens before ≠ []) :
    Expr.parse (before ++ after) = Expr.parse before := by
  obtain ⟨first, rest, forest⟩ := List.exists_cons_of_ne_nil (Node.forest_ne_nil some)
  have isFirst : first ∈ Node.forest (tokens before) := forest ▸ List.mem_cons_self
  rw [parse_eq, parse_eq, forest_tokens_append apart closed, forest, List.cons_append]
  exact ofNode_append after (Node.inside_of_mem_forest isFirst)

/-- The nodes at the top level of two sources in a row are those of the first, which leaves no parenthesis open, and
behind them those of the second, moved by the length of the first.  There is a tree if one of the two has a token.  If
the first one has, then parsing both is parsing the first. -/
theorem Node.topLevel_append {before after : List UInt8} (apart : Apart before after)
    (closed : neverClosed (tokens before) = []) :
    topLevel (before ++ after) = topLevel before ++ (topLevel after).map (shift before.length) ∧
      ((∃ root, read (before ++ after) = .ok root) ↔ tokens before ≠ [] ∨ tokens after ≠ []) ∧
      (tokens before ≠ [] → Expr.parse (before ++ after) = Expr.parse before) := by
  refine ⟨?_, ?_, Expr.parse_append apart closed⟩
  · rw [topLevel_eq, topLevel_eq, topLevel_eq, forest_tokens_append apart closed]
  · rw [exists_read_iff, tokens_append apart, ne_eq, List.append_eq_nil_iff, List.map_eq_nil_iff]
    exact not_and_or

/-- The source `)(a(b))`, followed by `)((` and a byte that is not UTF-8. -/
theorem Node.topLevel_append_malformed :
    Apart [0x29, 0x28, 0x61, 0x28, 0x62, 0x29, 0x29] [0x29, 0x28, 0x28, 0xff] ∧
      neverClosed (tokens [0x29, 0x28, 0x61, 0x28, 0x62, 0x29, 0x29]) = [] ∧
      topLevel [0x29, 0x28, 0x61, 0x28, 0x62, 0x29, 0x29, 0x29, 0x28, 0x28, 0xff] =
        topLevel [0x29, 0x28, 0x61, 0x28, 0x62, 0x29, 0x29] ++ (topLevel [0x29, 0x28, 0x28, 0xff]).map (shift 7) ∧
      Expr.parse [0x29, 0x28, 0x61, 0x28, 0x62, 0x29, 0x29, 0x29, 0x28, 0x28, 0xff] =
        Expr.parse [0x29, 0x28, 0x61, 0x28, 0x62, 0x29, 0x29] := by
  have apart : Apart [0x29, 0x28, 0x61, 0x28, 0x62, 0x29, 0x29] [0x29, 0x28, 0x28, 0xff] :=
    apart_of_getLast? rfl (by decide)
  have closed : neverClosed (tokens [0x29, 0x28, 0x61, 0x28, 0x62, 0x29, 0x29]) = [] := by decide
  obtain ⟨nodes, -, parsed⟩ := Node.topLevel_append apart closed
  exact ⟨apart, closed, nodes, parsed (by decide)⟩

end SExprLayout
