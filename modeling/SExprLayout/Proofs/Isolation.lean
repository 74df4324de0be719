import SExprLayout.Proofs.Expr.Alike
import SExprLayout.Proofs.Expr.Fault
import SExprLayout.Proofs.Source.Excerpt

/-!
# Reading one node alone

The text of an atom or a list in the tree of a source, at any depth and inside an error too, is a source of its own.
It is read as the node, moved to the front, and nothing else; and it is parsed as the expression that the node stands
for in the whole source, or else it fails at the same atom, that much nearer to the front (`Node.read_text`).
-/

namespace SExprLayout

/-- A complete node can fail to be read only because an atom is not UTF-8. -/
private theorem Node.Complete.exists_notUtf8 {source : List UInt8} {node : Node}
    (complete : node.Complete (tokens source)) {error : Error} (failed : Expr.ofNode source node = .error error) :
    ∃ start stop, error = .notUtf8 start stop := by
  obtain ⟨before, inner, after, split, balanced⟩ := complete
  have mem : ∀ token ∈ inner, token ∈ tokens source := by
    intro token mem
    simp [split, mem]
  have single : Expr.ofAll source [node] = .error error := by
    rw [Expr.ofAll, failed]
    rfl
  obtain ⟨token, -, e⟩ := balanced.exists_notUtf8 mem (fun token => balanced.not_mem_neverClosed split) single
  exact ⟨_, _, e⟩

/-- The text of an atom or a list in the tree of a source is read as a tree with one node at the top level, which is
the node itself, moved to the front.  It is parsed as the expression of the node, or both fail at an atom that is not
UTF-8, whose positions differ by that of the node. -/
theorem Node.read_text {source : List UInt8} {root node : Node} (isRoot : read source = .ok root)
    (mem : node ∈ root.within) (kind : node.kind = .atom ∨ node.kind = .list) :
    read (node.text source) = .ok ⟨.root, 0, (node.text source).length, [node.shift (-node.start)]⟩ ∧
      ((∃ e, Expr.parse (node.text source) = .ok e ∧ Expr.ofNode source node = .ok e) ∨
        ∃ start stop, Expr.parse (node.text source) = .error (.notUtf8 start stop) ∧
          Expr.ofNode source node = .error (.notUtf8 (start + node.start) (stop + node.start))) := by
  obtain ⟨-, rfl⟩ := read_eq_ok_iff.1 isRoot
  have below : node ∈ withinAll (forest (tokens source)) := by
    rw [within_eq] at mem
    rcases List.mem_cons.1 mem with rfl | mem
    · rcases kind with kind | kind <;> cases kind
    · exact mem
  have complete : node.Complete (tokens source) := complete_of_mem_forest kind below
  have bounds : 0 ≤ node.start ∧ node.start < node.stop ∧ node.stop ≤ source.length := by
    obtain ⟨tree, isTop, among⟩ := mem_withinAll.1 below
    exact inside_of_mem_forest isTop node among
  obtain ⟨front, back, parts, start, alone⟩ := exists_forest_text complete bounds
  have parsed : Expr.parse (node.text source) = Expr.ofNode (node.text source) (node.shift (-node.start)) := by
    rw [Expr.parse_eq, alone]
  have isTop : node.shift (-node.start) ∈ forest (tokens (node.text source)) := alone ▸ List.mem_cons_self
  have whole : Expr.ofNode source node =
      (Expr.ofNode (node.text source) (node.shift (-node.start))).mapError (Error.shift node.start) := by
    have moved := Expr.ofNode_shift front back (inside_of_mem_forest isTop)
    rwa [← parts, ← start, shift_shift, Int.add_left_neg, shift_zero] at moved
  refine ⟨read_eq_ok alone, ?_⟩
  rw [parsed]
  cases outcome : Expr.ofNode (node.text source) (node.shift (-node.start)) with
  | ok e =>
    rw [outcome] at whole
    exact .inl ⟨e, rfl, whole⟩
  | error error =>
    rw [outcome] at whole
    obtain ⟨_, _, e⟩ := complete.exists_notUtf8 whole
    cases error with
    | notUtf8 start stop => exact .inr ⟨start, stop, rfl, whole⟩
    | _ => cases e

/-- The source `(x (b ?) c` with a byte in place of the question mark that is not UTF-8, and the list in it, which
stands inside an error. -/
theorem Node.read_text_unclosed :
    ∃ root node, read [0x28, 0x78, 0x20, 0x28, 0x62, 0x20, 0xff, 0x29, 0x20, 0x63] = .ok root ∧ node ∈ root.within ∧
      node.kind = .list ∧ node.start = 3 ∧
      read [0x28, 0x62, 0x20, 0xff, 0x29] = .ok ⟨.root, 0, 5, [node.shift (-3)]⟩ ∧
      Expr.parse [0x28, 0x62, 0x20, 0xff, 0x29] = .error (.notUtf8 3 4) ∧
      Expr.ofNode [0x28, 0x78, 0x20, 0x28, 0x62, 0x20, 0xff, 0x29, 0x20, 0x63] node = .error (.notUtf8 6 7) := by
  let items : List Node := [leaf ⟨3, .opening⟩, leaf ⟨4, .atom [0x62]⟩, leaf ⟨6, .atom [0xff]⟩, leaf ⟨7, .closing⟩]
  let inner : Node := ⟨.list, 3, 8, items⟩
  let root : Node := ⟨.root, 0, 10, [⟨.error, 0, 10, [leaf ⟨0, .opening⟩, leaf ⟨1, .atom [0x78]⟩, inner,
    leaf ⟨9, .atom [0x63]⟩]⟩]⟩
  have isRoot : read [0x28, 0x78, 0x20, 0x28, 0x62, 0x20, 0xff, 0x29, 0x20, 0x63] = .ok root := rfl
  have here : inner ∈ inner.within := mem_within.2 (.inl rfl)
  have mem : inner ∈ root.within := by simp [root, within, withinAll, here]
  obtain ⟨alone, outcome⟩ := read_text isRoot mem (.inr rfl)
  refine ⟨root, inner, isRoot, mem, rfl, rfl, alone, ?_⟩
  have failed : Expr.parse [0x28, 0x62, 0x20, 0xff, 0x29] = .error (.notUtf8 3 4) := by decide
  rcases outcome with ⟨e, parsed, -⟩ | ⟨start, stop, parsed, whole⟩
  · cases failed.symm.trans parsed
  · cases failed.symm.trans parsed
    exact ⟨failed, whole⟩

end SExprLayout
