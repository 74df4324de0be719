import Mathlib.Data.List.Forall2
import SExprLayout.Expr.OfNode
import SExprLayout.Proofs.Source.Shift

/-!
# Nodes that are read alike

Of a node, only its kind counts, the text if it is an atom, and the children but the first if it is a list or was
recovered.  A `Likeness` is a relation between the nodes of two sources that keeps to this, so related nodes are read
as the same expression or fail with related errors (`Likeness.ofNode`).

A node further on in a longer source is such a pair: it is read as the same expression, or it fails with the same error
further on (`ofNode_shift`).
-/

namespace SExprLayout

/-- Both succeed with the same result, or they fail with errors that are related. -/
inductive SameOutcome {α : Type} (E : Error → Error → Prop) : Except Error α → Except Error α → Prop
  | ok (a : α) : SameOutcome E (.ok a) (.ok a)
  | error {e e' : Error} (h : E e e') : SameOutcome E (.error e) (.error e')

theorem SameOutcome.map {α β : Type} {E : Error → Error → Prop} {x y : Except Error α} (h : SameOutcome E x y)
    (f : α → β) : SameOutcome E (x.map f) (y.map f) := by
  cases h with
  | ok a => exact .ok (f a)
  | error h => exact .error h

/-- A relation between nodes of two sources that look the same, where faults of related nodes are related. -/
structure Likeness (source source' : List UInt8) (R : Node → Node → Prop) (E : Error → Error → Prop) : Prop where
  kind : ∀ {node node' : Node}, R node node' → node.kind = node'.kind
  text : ∀ {node node' : Node}, R node node' → node.kind = .atom → node.text source = node'.text source'
  notUtf8 : ∀ {node node' : Node}, R node node' → node.kind = .atom →
    E (.notUtf8 node.start node.stop) (.notUtf8 node'.start node'.stop)
  emptyAtom : E .emptyAtom .emptyAtom
  unknownKind : ∀ kind : Kind, E (.unknownKind kind) (.unknownKind kind)
  inner : ∀ {node node' : Node}, R node node' → node.kind = .list ∨ node.kind.isRecovery = true →
    List.Forall₂ R node.children.tail node'.children.tail

namespace Likeness

variable {source source' : List UInt8} {R : Node → Node → Prop} {E : Error → Error → Prop}

private theorem atomBetween (like : Likeness source source' R E) {node node' : Node} (h : R node node')
    (kind : node.kind = .atom) :
    SameOutcome E (Expr.atomBetween source node.start node.stop)
      (Expr.atomBetween source' node'.start node'.stop) := by
  have text : slice node.start node.stop source = slice node'.start node'.stop source' := like.text h kind
  unfold Expr.atomBetween
  rw [text]
  split
  · rename_i text _
    by_cases empty : text = ""
    · rw [Atom.ofText, dif_pos empty]
      exact .error like.emptyAtom
    · rw [Atom.ofText, dif_neg empty]
      exact .ok _
  · exact .error (like.notUtf8 h kind)

mutual

/-- Related nodes are read as the same expression, or they fail with related errors. -/
theorem ofNode (like : Likeness source source' R E) (node : Node) {node' : Node} (h : R node node') :
    SameOutcome E (Expr.ofNode source node) (Expr.ofNode source' node') := by
  have same := like.kind h
  match node, node' with
  | ⟨kind, start, stop, children⟩, ⟨kind', start', stop', children'⟩ =>
    obtain rfl : kind = kind' := same
    have tails := like.inner h
    have between := like.atomBetween h
    cases kind with
    | atom => exact (between rfl).map _
    | list => exact (ofInner like children (tails (.inl rfl))).map _
    | error => exact (ofInner like children (tails (.inr rfl))).map _
    | missing => exact (ofInner like children (tails (.inr rfl))).map _
    | closing => exact .ok _
    | root => exact .error (like.unknownKind .root)
    | opening => exact .error (like.unknownKind .opening)
    | other name unreserved => exact .error (like.unknownKind (.other name unreserved))

theorem ofInner (like : Likeness source source' R E) (children : List Node) {children' : List Node}
    (h : List.Forall₂ R children.tail children'.tail) :
    SameOutcome E (Expr.ofInner source children) (Expr.ofInner source' children') := by
  rw [Expr.ofInner_eq_ofAll_tail source']
  match children with
  | [] =>
    rw [List.forall₂_nil_left_iff.1 h]
    exact .ok []
  | first :: rest => exact ofAll like rest h

/-- Related nodes in a row are read as the same expressions, or they fail with related errors. -/
theorem ofAll (like : Likeness source source' R E) (nodes : List Node) {nodes' : List Node}
    (h : List.Forall₂ R nodes nodes') :
    SameOutcome E (Expr.ofAll source nodes) (Expr.ofAll source' nodes') := by
  match nodes with
  | [] =>
    rw [List.forall₂_nil_left_iff.1 h]
    exact .ok []
  | node :: rest =>
    obtain ⟨node', rest', first, later, rfl⟩ := List.forall₂_cons_left_iff.1 h
    have head := ofNode like node first
    have tail := ofAll like rest later
    rw [Expr.ofAll, Expr.ofAll]
    generalize Expr.ofNode source node = x, Expr.ofNode source' node' = y at head
    generalize Expr.ofAll source rest = xs, Expr.ofAll source' rest' = ys at tail
    cases head with
    | error related => exact .error related
    | ok e =>
      cases tail with
      | error related => exact .error related
      | ok es => exact .ok (e :: es)

end

end Likeness

/-! ### Nodes further on -/

/-- The same error further on in the source. -/
def Error.shift (distance : Int) : Error → Error
  | notUtf8 start stop => notUtf8 (start + distance) (stop + distance)
  | error => error

private theorem SameOutcome.eq_mapError {α : Type} {f : Error → Error} {x y : Except Error α}
    (h : SameOutcome (fun e e' => e' = f e) x y) : y = x.mapError f := by
  cases h with
  | ok a => rfl
  | error h =>
    rw [h]
    rfl

/-- A source is read alike inside a longer one. -/
private theorem likeness_shift (before source after : List UInt8) :
    Likeness source (before ++ source ++ after)
      (fun node node' => node' = node.shift before.length ∧ node.Inside source.length)
      (fun e e' => e' = e.shift before.length) where
  kind := by
    rintro node _ ⟨rfl, -⟩
    rw [Node.kind_shift]
  text := by
    rintro node _ ⟨rfl, inside⟩ -
    obtain ⟨first, order, last⟩ := inside node (Node.mem_within.2 (.inl rfl))
    rw [Node.text, Node.text, Node.start_shift, Node.stop_shift, slice_between first (by omega) last]
  notUtf8 := by
    rintro node _ ⟨rfl, -⟩ -
    rw [Node.start_shift, Node.stop_shift]
    rfl
  emptyAtom := rfl
  unknownKind _ := rfl
  inner := by
    rintro node _ ⟨rfl, inside⟩ -
    rw [Node.children_shift, ← List.map_tail, List.forall₂_map_right_iff, List.forall₂_same]
    intro child mem
    refine ⟨rfl, ?_⟩
    intro part below
    exact inside part (Node.mem_within.2 (.inr ⟨child, List.mem_of_mem_tail mem, below⟩))

namespace Expr

/-- A node inside a source is read as the same node further on in a longer source, and an error is further on too. -/
theorem ofNode_shift (before : List UInt8) {source : List UInt8} (after : List UInt8) {node : Node}
    (inside : node.Inside source.length) :
    ofNode (before ++ source ++ after) (node.shift before.length) =
      (ofNode source node).mapError (Error.shift before.length) :=
  ((likeness_shift before source after).ofNode node ⟨rfl, inside⟩).eq_mapError

theorem ofAll_shift (before : List UInt8) {source : List UInt8} (after : List UInt8) {nodes : List Node}
    (inside : ∀ node ∈ nodes, node.Inside source.length) :
    ofAll (before ++ source ++ after) (nodes.map (Node.shift before.length)) =
      (ofAll source nodes).mapError (Error.shift before.length) := by
  apply ((likeness_shift before source after).ofAll nodes _).eq_mapError
  rw [List.forall₂_map_right_iff, List.forall₂_same]
  exact fun node mem => ⟨rfl, inside node mem⟩

/-- What follows a source makes no difference to the nodes inside it. -/
theorem ofNode_append {source : List UInt8} (after : List UInt8) {node : Node} (inside : node.Inside source.length) :
    ofNode (source ++ after) node = ofNode source node := by
  have same : Error.shift 0 = id := by
    funext error
    cases error with
    | notUtf8 start stop => rw [Error.shift, Int.add_zero, Int.add_zero, id]
    | _ => rfl
  have moved := ofNode_shift [] after inside
  rw [List.length_nil, Int.natCast_zero, Node.shift_zero, same, List.nil_append] at moved
  rw [moved]
  cases ofNode source node <;> rfl

end Expr

end SExprLayout
