import SExprLayout.Expr.Basic
import SExprLayout.Source.Recovery
import SExprLayout.Text.Utf8

/-!
# Expressions from concrete nodes

An atom node becomes the atom of its text, a closing parenthesis becomes nil, and a list becomes the list of its
children without the first, which is the opening parenthesis.  A part that had to be recovered becomes a list
headed by the name of its kind.  Nodes are turned from left to right, each before its children, and the first
fault is the answer.

`parse` reads a source and takes its first top-level node.
-/

namespace SExprLayout.Expr

/-- The atom between two positions of a source. -/
def atomBetween (source : List UInt8) (start stop : Int) : Except Error Atom :=
  match Utf8.decode? (slice start stop source) with
  | some text => Atom.ofText text
  | none => .error (.notUtf8 start stop)

/-- What stands at the head of a list made from a node of this kind. -/
def heading : Kind → List Expr
  | .error => [atom ⟨"ERROR", by decide⟩]
  | .missing => [atom ⟨"MISSING", by decide⟩]
  | _ => []

mutual

/-- The expression that a node of a source stands for. -/
def ofNode (source : List UInt8) : Node → Except Error Expr
  | ⟨.atom, start, stop, _⟩ => (atomBetween source start stop).map atom
  | ⟨.list, _, _, children⟩ => (ofInner source children).map list
  | ⟨.error, _, _, children⟩ => (ofInner source children).map fun inner => list (heading .error ++ inner)
  | ⟨.missing, _, _, children⟩ => (ofInner source children).map fun inner => list (heading .missing ++ inner)
  | ⟨.closing, _, _, _⟩ => .ok nil
  | ⟨kind, _, _, _⟩ => .error (.unknownKind kind)

/-- The expressions of all nodes in a row but the first. -/
def ofInner (source : List UInt8) : List Node → Except Error (List Expr)
  | [] => .ok []
  | _ :: rest => ofAll source rest

/-- The expressions of nodes in a row. -/
def ofAll (source : List UInt8) : List Node → Except Error (List Expr)
  | [] => .ok []
  | node :: nodes => do
    let first ← ofNode source node
    let rest ← ofAll source nodes
    return first :: rest

end

/-- The expression of the first top-level node of a source. -/
def parse (source : List UInt8) : Except Error Expr := do
  let root ← Node.read source
  match root.children with
  | [] => .error .nothingToParse
  | first :: _ => ofNode source first

theorem ofInner_eq_ofAll_tail (source : List UInt8) (children : List Node) :
    ofInner source children = ofAll source children.tail := by
  cases children <;> rfl

/-- Every list, closed or recovered, is made from its children without the first. -/
theorem ofNode_of_inner {source : List UInt8} {kind : Kind} (start stop : Int) (children : List Node)
    (h : kind = .list ∨ kind.isRecovery = true) :
    ofNode source ⟨kind, start, stop, children⟩ =
      (ofAll source children.tail).map fun inner => list (heading kind ++ inner) := by
  rw [← ofInner_eq_ofAll_tail]
  cases kind with
  | list => rfl
  | error => rfl
  | missing => rfl
  | _ => simp [Kind.isRecovery] at h

end SExprLayout.Expr
