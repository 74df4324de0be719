import SExprLayout.Source.Kind
import SExprLayout.Source.Token
import SExprLayout.Text.Slice

/-!
# Concrete nodes

A concrete node has a kind, the positions of its first byte and after its last one, and children, which are kept in
source order and include every parenthesis.  A node made by hand may carry any positions; its text is the slice of
the source between them.
`leaves` lists the nodes without children, from left to right, and `shift` moves a node along the source.
-/

namespace SExprLayout

/-- A node of the concrete tree of a source. -/
structure Node where
  kind : Kind
  start : Int
  stop : Int
  children : List Node

namespace Node

instance : Inhabited Node := ⟨⟨.root, 0, 0, []⟩⟩

/-- The kind of a token's node. -/
def kindOf : Lexeme → Kind
  | .opening => .opening
  | .closing => .closing
  | .atom _ => .atom

/-- The node of a token. -/
def leaf (token : Token) : Node := ⟨kindOf token.lexeme, token.start, token.stop, []⟩

/-- A node that reaches from the first of its children to the last. -/
def spanning (kind : Kind) (first : Node) (rest : List Node) : Node :=
  ⟨kind, first.start, (rest.getLast?.getD first).stop, first :: rest⟩

/-- The bytes of a source that a node covers. -/
def text (source : List UInt8) (node : Node) : List UInt8 := slice node.start node.stop source

/-- A one-line description, without the children. -/
def describe (node : Node) : String := s!"<SyntaxNode {node.kind.name} {node.start}..{node.stop}>"

mutual

/-- The nodes without children below a node, itself included, from left to right. -/
def leaves : Node → List Node
  | ⟨kind, start, stop, []⟩ => [⟨kind, start, stop, []⟩]
  | ⟨_, _, _, first :: rest⟩ => leavesAll (first :: rest)

/-- The leaves of nodes in a row. -/
def leavesAll : List Node → List Node
  | [] => []
  | node :: nodes => node.leaves ++ leavesAll nodes

end

mutual

/-- The same node further on. -/
def shift (distance : Int) : Node → Node
  | ⟨kind, start, stop, children⟩ => ⟨kind, start + distance, stop + distance, shiftAll distance children⟩

/-- The same nodes further on. -/
def shiftAll (distance : Int) : List Node → List Node
  | [] => []
  | node :: nodes => node.shift distance :: shiftAll distance nodes

end

theorem leavesAll_eq_flatMap (nodes : List Node) : leavesAll nodes = nodes.flatMap leaves := by
  induction nodes with
  | nil => rfl
  | cons node nodes ih => rw [leavesAll, ih, List.flatMap_cons]

theorem shiftAll_eq_map (distance : Int) (nodes : List Node) :
    shiftAll distance nodes = nodes.map (shift distance) := by
  induction nodes with
  | nil => rfl
  | cons node nodes ih => rw [shiftAll, ih, List.map_cons]

@[simp] theorem leaves_leaf (token : Token) : (leaf token).leaves = [leaf token] := rfl

@[simp] theorem leaves_spanning (kind : Kind) (first : Node) (rest : List Node) :
    (spanning kind first rest).leaves = first.leaves ++ rest.flatMap leaves := by
  rw [spanning, leaves, leavesAll, leavesAll_eq_flatMap]

@[simp] theorem start_shift (distance : Int) (node : Node) : (node.shift distance).start = node.start + distance := by
  cases node
  rfl

@[simp] theorem stop_shift (distance : Int) (node : Node) : (node.shift distance).stop = node.stop + distance := by
  cases node
  rfl

@[simp] theorem kind_shift (distance : Int) (node : Node) : (node.shift distance).kind = node.kind := by
  cases node
  rfl

@[simp] theorem children_shift (distance : Int) (node : Node) :
    (node.shift distance).children = node.children.map (shift distance) := by
  cases node
  exact shiftAll_eq_map distance _

mutual

theorem shift_zero (node : Node) : node.shift 0 = node := by
  match node with
  | ⟨kind, start, stop, children⟩ => rw [shift, shiftAll_zero children, Int.add_zero, Int.add_zero]

theorem shiftAll_zero (nodes : List Node) : shiftAll 0 nodes = nodes := by
  match nodes with
  | [] => rfl
  | node :: nodes => rw [shiftAll, shift_zero node, shiftAll_zero nodes]

end

mutual

theorem shift_shift (distance further : Int) (node : Node) :
    (node.shift distance).shift further = node.shift (distance + further) := by
  match node with
  | ⟨kind, start, stop, children⟩ =>
    rw [shift, shift, shift, shiftAll_shiftAll distance further children, Int.add_assoc, Int.add_assoc]

theorem shiftAll_shiftAll (distance further : Int) (nodes : List Node) :
    shiftAll further (shiftAll distance nodes) = shiftAll (distance + further) nodes := by
  match nodes with
  | [] => rfl
  | node :: nodes =>
    rw [shiftAll, shiftAll, shiftAll, shift_shift distance further node, shiftAll_shiftAll distance further nodes]

end

theorem shift_leaf (distance : Nat) (token : Token) :
    (leaf token).shift distance = leaf (token.shift distance) := by
  simp only [leaf, shift, shiftAll, Token.shift, Token.stop, Token.bytes, mk.injEq, true_and, and_true]
  omega

theorem shift_spanning (distance : Int) (kind : Kind) (first : Node) (rest : List Node) :
    (spanning kind first rest).shift distance =
      spanning kind (first.shift distance) (rest.map (shift distance)) := by
  simp only [spanning, shift, shiftAll, shiftAll_eq_map, List.getLast?_map, start_shift, mk.injEq, true_and, and_true]
  cases rest.getLast? <;> simp

end Node

end SExprLayout
