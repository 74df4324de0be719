import SExprLayout.Proofs.Expr.Alike
import SExprLayout.Proofs.Expr.Mirror

/-!
# What is not looked at

Two nodes of two sources look alike if the nodes that are looked at below them stand at the same places, and if nodes at
the same place have the same kind, the same number of children that are looked at and, if they are atoms, the same text
(`Node.LooksLike`).  Nothing else counts: neither the first child of a list or a recovered part nor the children of all
other nodes, neither the positions of nodes that are not atoms nor the source outside of the atoms.

Two nodes look alike if they do so on their own account and their children do, one by one (`Node.looksLike_iff`).  Below
nodes that look alike, what is looked at stands at the same places in the same order (`Node.LooksLike.visible`), and the
first node at fault stands at the same place (`Node.LooksLike.firstFaulty`).  So both are turned into the same
expression, or they fail there, with the same kind of error (`Expr.ofNode_of_looksLike`).
-/

namespace SExprLayout

private theorem rel_find? {α β : Type} {R : α → β → Prop} {p : α → Bool} {q : β → Bool} {xs : List α} {ys : List β}
    (h : List.Forall₂ R xs ys) (same : ∀ {x y}, R x y → p x = q y) : Option.Rel R (xs.find? p) (ys.find? q) := by
  induction h with
  | nil => exact .none
  | @cons x y xs ys first _ ih =>
    rw [List.find?_cons, List.find?_cons, same first]
    cases q y with
    | true => exact .some first
    | false => exact ih

/-- The same error, perhaps with other positions. -/
inductive Error.SameKind : Error → Error → Prop
  | notUtf8 {start stop start' stop' : Int} : SameKind (.notUtf8 start stop) (.notUtf8 start' stop')
  | same (error : Error) : SameKind error error

namespace Node

/-- The children of a node that are looked at. -/
def visibleChildren (node : Node) : List Node :=
  if node.kind = .list ∨ node.kind.isRecovery = true then node.children.tail else []

/-- The first of the nodes that are looked at that is at fault on its own account. -/
def firstFaulty (source : List UInt8) (root : Node) : Option Node :=
  root.visible.find? fun part => (part.fault source).isSome

theorem visible_eq (node : Node) : node.visible = node :: visibleAll node.visibleChildren := by
  cases node with
  | mk kind start stop children =>
    rw [visible, visibleChildren]
    split
    · cases children <;> rfl
    · rfl

/-- Both nodes are looked at when the two roots are, and they stand at the same place. -/
inductive SamePlace (root root' : Node) : Node → Node → Prop
  | roots : SamePlace root root' root root'
  | children {parent parent' node node' : Node} (above : SamePlace root root' parent parent') (k : Nat)
      (isChild : parent.visibleChildren[k]? = some node) (isChild' : parent'.visibleChildren[k]? = some node') :
      SamePlace root root' node node'

/-- As far as they are looked at, the two nodes of two sources are the same. -/
structure LooksLike (source source' : List UInt8) (root root' : Node) : Prop where
  kind : ∀ {node node' : Node}, SamePlace root root' node node' → node.kind = node'.kind
  length : ∀ {node node' : Node}, SamePlace root root' node node' →
    node.visibleChildren.length = node'.visibleChildren.length
  text : ∀ {node node' : Node}, SamePlace root root' node node' → node.kind = .atom →
    node.text source = node'.text source'

section

variable {source source' : List UInt8} {root root' node node' below below' : Node}

theorem SamePlace.trans (above : SamePlace root root' node node') (h : SamePlace node node' below below') :
    SamePlace root root' below below' := by
  induction h with
  | roots => exact above
  | children _ k isChild isChild' ih => exact ih.children k isChild isChild'

/-- The same places are those of the roots and those below children at the same place. -/
theorem samePlace_iff :
    SamePlace root root' node node' ↔ (node = root ∧ node' = root') ∨ ∃ (k : Nat) (child child' : Node),
      root.visibleChildren[k]? = some child ∧ root'.visibleChildren[k]? = some child' ∧
        SamePlace child child' node node' := by
  constructor
  · intro h
    induction h with
    | roots => exact .inl ⟨rfl, rfl⟩
    | children _ k isChild isChild' ih =>
      obtain ⟨rfl, rfl⟩ | ⟨first, child, child', isFirst, isFirst', above⟩ := ih
      · exact .inr ⟨k, _, _, isChild, isChild', .roots⟩
      · exact .inr ⟨first, child, child', isFirst, isFirst', above.children k isChild isChild'⟩
  · rintro (⟨rfl, rfl⟩ | ⟨k, child, child', isChild, isChild', h⟩)
    · exact .roots
    · exact (SamePlace.roots.children k isChild isChild').trans h

/-- Two nodes look alike if they do so on their own account and their children do, one by one. -/
theorem looksLike_iff :
    LooksLike source source' root root' ↔ root.kind = root'.kind ∧
      (root.kind = .atom → root.text source = root'.text source') ∧
      List.Forall₂ (LooksLike source source') root.visibleChildren root'.visibleChildren := by
  constructor
  · intro alike
    refine ⟨alike.kind .roots, alike.text .roots,
      List.forall₂_of_length_eq_of_get (alike.length .roots) fun k lt lt' => ?_⟩
    have place := SamePlace.roots.children k (List.getElem?_eq_getElem lt) (List.getElem?_eq_getElem lt')
    exact ⟨fun h => alike.kind (place.trans h), fun h => alike.length (place.trans h),
      fun h => alike.text (place.trans h)⟩
  · rintro ⟨kind, text, row⟩
    have below {k : Nat} {child child' : Node} (isChild : root.visibleChildren[k]? = some child)
        (isChild' : root'.visibleChildren[k]? = some child') : LooksLike source source' child child' := by
      obtain ⟨lt, rfl⟩ := List.getElem?_eq_some_iff.1 isChild
      obtain ⟨lt', rfl⟩ := List.getElem?_eq_some_iff.1 isChild'
      exact row.get lt lt'
    constructor <;> intro node node' h <;>
      obtain ⟨rfl, rfl⟩ | ⟨k, child, child', isChild, isChild', place⟩ := samePlace_iff.1 h
    · exact kind
    · exact (below isChild isChild').kind place
    · exact row.length_eq
    · exact (below isChild isChild').length place
    · exact text
    · exact (below isChild isChild').text place

end

namespace LooksLike

variable {source source' : List UInt8} {root root' node node' : Node}

theorem visibleChildren (alike : LooksLike source source' root root') (h : SamePlace root root' node node') :
    List.Forall₂ (SamePlace root root') node.visibleChildren node'.visibleChildren := by
  refine List.forall₂_of_length_eq_of_get (alike.length h) fun k lt lt' => ?_
  exact h.children k (List.getElem?_eq_getElem lt) (List.getElem?_eq_getElem lt')

mutual

/-- What is looked at below two nodes at the same place stands at the same places, in the same order. -/
theorem visible (alike : LooksLike source source' root root') (node : Node) {node' : Node}
    (h : SamePlace root root' node node') : List.Forall₂ (SamePlace root root') node.visible node'.visible := by
  have row := alike.visibleChildren h
  rw [visible_eq node']
  match node with
  | ⟨kind, start, stop, children⟩ =>
    rw [Node.visibleChildren] at row
    rw [Node.visible]
    refine .cons h ?_
    by_cases inner : kind = .list ∨ kind.isRecovery = true
    · rw [if_pos inner] at row ⊢
      exact visibleInner alike children row
    · rw [if_neg inner] at row ⊢
      rw [List.forall₂_nil_left_iff.1 row]
      exact .nil

theorem visibleInner (alike : LooksLike source source' root root') (children : List Node) {nodes' : List Node}
    (h : List.Forall₂ (SamePlace root root') children.tail nodes') :
    List.Forall₂ (SamePlace root root') (Node.visibleInner children) (Node.visibleAll nodes') := by
  match children with
  | [] =>
    rw [List.forall₂_nil_left_iff.1 h]
    exact .nil
  | _ :: rest => exact visibleAll alike rest h

theorem visibleAll (alike : LooksLike source source' root root') (nodes : List Node) {nodes' : List Node}
    (h : List.Forall₂ (SamePlace root root') nodes nodes') :
    List.Forall₂ (SamePlace root root') (Node.visibleAll nodes) (Node.visibleAll nodes') := by
  match nodes with
  | [] =>
    rw [List.forall₂_nil_left_iff.1 h]
    exact .nil
  | node :: rest =>
    obtain ⟨node', rest', first, later, rfl⟩ := List.forall₂_cons_left_iff.1 h
    exact List.rel_append (visible alike node first) (visibleAll alike rest later)

end

/-- Nodes at the same place are both at fault, or both are not. -/
theorem isSome_fault_eq (alike : LooksLike source source' root root') (h : SamePlace root root' node node') :
    (node.fault source).isSome = (node'.fault source').isSome := by
  have sound : node.Sound source ↔ node'.Sound source' := by
    unfold Sound
    rw [← alike.kind h]
    refine or_congr_left (and_congr_right fun isAtom => ?_)
    rw [alike.text h isAtom]
  rw [Bool.eq_iff_iff, Option.isSome_iff_ne_none, Option.isSome_iff_ne_none, ne_eq, ne_eq, fault_eq_none_iff,
    fault_eq_none_iff]
  exact not_congr sound

/-- The first nodes at fault stand at the same place. -/
theorem firstFaulty (alike : LooksLike source source' root root') :
    Option.Rel (SamePlace root root') (root.firstFaulty source) (root'.firstFaulty source') :=
  rel_find? (alike.visible root .roots) alike.isSome_fault_eq

private theorem likeness (alike : LooksLike source source' root root') :
    Likeness source source' (SamePlace root root') Error.SameKind where
  kind := alike.kind
  text := alike.text
  notUtf8 _ _ := .notUtf8
  emptyAtom := .same _
  unknownKind _ := .same _
  inner h isInner := by
    have row := alike.visibleChildren h
    rwa [Node.visibleChildren, Node.visibleChildren, if_pos isInner, if_pos (alike.kind h ▸ isInner)] at row

end LooksLike

end Node

namespace Expr

variable {source source' : List UInt8} {root root' : Node}

/-- Turning a node fails at the first node at fault, with the error of this node. -/
theorem exists_firstFaulty_of_error {error : Error} (failed : ofNode source root = .error error) :
    ∃ part, root.firstFaulty source = some part ∧ part.Faulty source error := by
  rw [ofNode_eq_error_iff, List.findSome?_eq_some_iff] at failed
  obtain ⟨before, part, after, split, fault, none⟩ := failed
  refine ⟨part, ?_, Node.fault_eq_some_iff.1 fault⟩
  refine List.find?_eq_some_iff_append.2 ⟨Option.isSome_iff_exists.2 ⟨error, fault⟩, before, after, split, ?_⟩
  intro earlier mem
  rw [none earlier mem]
  rfl

/-- Two nodes that look alike are turned into the same expression, or both cannot be turned into one.  Then the first
nodes at fault stand at the same place, and the errors are of the same kind: an atom that is not UTF-8, each with its
own positions, an atom without bytes, or the same kind that no expression is made from. -/
theorem ofNode_of_looksLike (alike : Node.LooksLike source source' root root') :
    (∃ e, ofNode source root = .ok e ∧ ofNode source' root' = .ok e) ∨
      ∃ error error' part part', ofNode source root = .error error ∧ ofNode source' root' = .error error' ∧
        error.SameKind error' ∧ root.SamePlace root' part part' ∧
        root.firstFaulty source = some part ∧ part.Faulty source error ∧
        root'.firstFaulty source' = some part' ∧ part'.Faulty source' error' := by
  have outcome := alike.likeness.ofNode root .roots
  cases made : ofNode source root with
  | ok e =>
    cases made' : ofNode source' root' with
    | ok e' =>
      rw [made, made'] at outcome
      cases outcome
      exact .inl ⟨e, rfl, rfl⟩
    | error error' =>
      rw [made, made'] at outcome
      cases outcome
  | error error =>
    cases made' : ofNode source' root' with
    | ok e' =>
      rw [made, made'] at outcome
      cases outcome
    | error error' =>
      rw [made, made'] at outcome
      obtain ⟨part, first, faulty⟩ := exists_firstFaulty_of_error made
      obtain ⟨part', first', faulty'⟩ := exists_firstFaulty_of_error made'
      have place := alike.firstFaulty
      rw [first, first'] at place
      cases outcome with
      | error sameKind =>
        cases place with
        | some place =>
          exact .inr ⟨error, error', part, part', rfl, rfl, sameKind, place, first, faulty, first', faulty'⟩

/-- The lists begin with other nodes, the atoms stand at other positions, and what is below the atoms and below the last
child differs.  In both lists the atom before it is the first fault, whatever is below the hidden nodes. -/
theorem ofNode_of_looksLike_hidden :
    let root : Node := ⟨.list, 0, 2, [⟨.opening, 0, 1, []⟩, ⟨.list, 0, 0, [⟨.root, 0, 0, []⟩, ⟨.atom, 0, 1, []⟩]⟩,
      ⟨.atom, 1, 2, []⟩, ⟨.root, 0, 0, []⟩]⟩
    let root' : Node := ⟨.list, 9, -4, [⟨.atom, 0, 1, []⟩,
      ⟨.list, 3, 3, [⟨.list, 0, 1, []⟩, ⟨.atom, 2, 9, [⟨.root, 0, 0, []⟩]⟩]⟩,
      ⟨.atom, 0, 1, [⟨.opening, 0, 0, []⟩]⟩, ⟨.root, 1, 1, [⟨.atom, 0, 1, []⟩]⟩]⟩
    Node.LooksLike [0x61, 0xff] [0xff, 0x20, 0x61] root root' ∧
      ofNode [0x61, 0xff] root = .error (.notUtf8 1 2) ∧ ofNode [0xff, 0x20, 0x61] root' = .error (.notUtf8 0 1) ∧
      root.SamePlace root' ⟨.atom, 1, 2, []⟩ ⟨.atom, 0, 1, [⟨.opening, 0, 0, []⟩]⟩ := by
  intro root root'
  have atoms {start stop start' stop' : Int} {children children' : List Node}
      (same : slice start stop [0x61, 0xff] = slice start' stop' [0xff, 0x20, 0x61]) :
      Node.LooksLike [0x61, 0xff] [0xff, 0x20, 0x61] ⟨.atom, start, stop, children⟩
        ⟨.atom, start', stop', children'⟩ :=
    Node.looksLike_iff.2 ⟨rfl, fun _ => same, .nil⟩
  have alike : Node.LooksLike [0x61, 0xff] [0xff, 0x20, 0x61] root root' := by
    refine Node.looksLike_iff.2 ⟨rfl, nofun, .cons ?_ (.cons (atoms (by decide)) (.cons ?_ .nil))⟩
    · exact Node.looksLike_iff.2 ⟨rfl, nofun, .cons (atoms (by decide)) .nil⟩
    · exact Node.looksLike_iff.2 ⟨rfl, nofun, .nil⟩
  have failed : ofNode [0x61, 0xff] root = .error (.notUtf8 1 2) := (ofNode_eq_error_iff root).2 rfl
  obtain ⟨e, made, -⟩ | ⟨error, error', part, part', -, failed', -, place, first, -, first', faulty'⟩ :=
    ofNode_of_looksLike alike
  · rw [failed] at made
    cases made
  · obtain rfl : ⟨.atom, 1, 2, []⟩ = part := Option.some_inj.1 first
    obtain rfl : ⟨.atom, 0, 1, [⟨.opening, 0, 0, []⟩]⟩ = part' := Option.some_inj.1 first'
    refine ⟨alike, failed, ?_, place⟩
    cases faulty' with
    | notUtf8 => exact failed'
    | emptyAtom _ empty => cases empty
    | unknownKind other => exact absurd (by decide) other

end Expr

end SExprLayout
