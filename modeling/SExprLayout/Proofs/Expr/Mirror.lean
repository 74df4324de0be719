import Mathlib.Data.List.Forall2
import SExprLayout.Proofs.Expr.Fault

/-!
# Expressions that mirror nodes

A node made by hand may carry any kind, any positions and any children.  Whether it is turned into an expression depends
on the nodes that are looked at, which are the node and, below each list and each recovered part among them, all
children but the first (`Node.LooksAt`).  It is turned into one if each of them is sound, and otherwise the first that
is not, in the order in which they are looked at, is what is reported (`ofNode_outcome`).

The expression then mirrors the nodes that were looked at (`Mirrors`): it has an atom for each atom, nil for each
closing parenthesis, and a list for each list, with the name of the kind at the front for a recovered part.  No other
expression mirrors the node, and none mirrors a node that cannot be turned into one (`ofNode_eq_ok_iff`).
-/

namespace SExprLayout

namespace Node

/-! ### The nodes that are looked at -/

/-- The node is looked at when `root` is turned into an expression: it is `root` itself, or a child other than the first
of a list or a recovered part that is looked at. -/
inductive LooksAt (root : Node) : Node → Prop
  | self : LooksAt root root
  | child {parent node : Node} (above : LooksAt root parent)
      (inner : parent.kind = .list ∨ parent.kind.isRecovery = true) (mem : node ∈ parent.children.tail) :
      LooksAt root node

/-- Below the node itself, what is looked at is looked at in one of its children but the first. -/
theorem looksAt_iff {root node : Node} :
    root.LooksAt node ↔ node = root ∨ (root.kind = .list ∨ root.kind.isRecovery = true) ∧
      ∃ child ∈ root.children.tail, child.LooksAt node := by
  constructor
  · intro h
    induction h with
    | self => exact .inl rfl
    | @child parent node _ inner mem ih =>
      rcases ih with rfl | ⟨outer, child, isChild, above⟩
      · exact .inr ⟨inner, node, mem, .self⟩
      · exact .inr ⟨outer, child, isChild, above.child inner mem⟩
  · rintro (rfl | ⟨inner, child, isChild, below⟩)
    · exact .self
    · induction below with
      | self => exact .child .self inner isChild
      | child _ inner' mem ih => exact ih.child inner' mem

mutual

theorem mem_visible_iff (root : Node) {node : Node} : node ∈ root.visible ↔ root.LooksAt node := by
  match root with
  | ⟨kind, start, stop, children⟩ =>
    rw [visible, List.mem_cons, looksAt_iff]
    split
    · rename_i inner
      rw [mem_visibleInner_iff children]
      exact or_congr_right (and_iff_right inner).symm
    · rename_i outer
      exact or_congr_right ⟨nofun, fun h => absurd h.1 outer⟩

theorem mem_visibleInner_iff (children : List Node) {node : Node} :
    node ∈ visibleInner children ↔ ∃ child ∈ children.tail, child.LooksAt node := by
  match children with
  | [] => simp [visibleInner]
  | _ :: rest => exact mem_visibleAll_iff rest

theorem mem_visibleAll_iff (nodes : List Node) {node : Node} :
    node ∈ visibleAll nodes ↔ ∃ first ∈ nodes, first.LooksAt node := by
  match nodes with
  | [] => simp [visibleAll]
  | first :: rest =>
    rw [visibleAll, List.mem_append, mem_visible_iff first, mem_visibleAll_iff rest]
    simp

end

/-! ### Sound nodes -/

/-- The node itself can be turned into an expression, if what is below it can. -/
def Sound (source : List UInt8) (node : Node) : Prop :=
  node.kind = .atom ∧ node.text source ≠ [] ∧ Utf8.IsValid (node.text source) ∨
    node.kind ∈ [.closing, .list, .error, .missing]

/-- The error that is reported for a node that is not sound: the positions of an atom whose bytes are not UTF-8, an atom
without bytes, or a kind that no expression is made from. -/
inductive Faulty (source : List UInt8) (node : Node) : Error → Prop
  | notUtf8 (kind : node.kind = .atom) (invalid : ¬Utf8.IsValid (node.text source)) :
      Faulty source node (.notUtf8 node.start node.stop)
  | emptyAtom (kind : node.kind = .atom) (empty : node.text source = []) : Faulty source node .emptyAtom
  | unknownKind (other : node.kind ∉ [.atom, .closing, .list, .error, .missing]) :
      Faulty source node (.unknownKind node.kind)

variable {source : List UInt8} {node : Node}

theorem fault_eq_none_iff : node.fault source = none ↔ node.Sound source := by
  rcases node with ⟨kind, start, stop, children⟩
  cases kind with
  | atom =>
    by_cases valid : Utf8.IsValid (slice start stop source)
    · simp only [fault, Sound, text, valid, not_true_eq_false, if_false]
      by_cases empty : slice start stop source = []
      · simp [empty]
      · simp [empty]
    · simp [fault, Sound, text, valid]
  | _ => simp [fault, Sound]

theorem fault_eq_some_iff {error : Error} : node.fault source = some error ↔ node.Faulty source error := by
  constructor
  · intro h
    unfold fault at h
    split at h
    · cases h
    · cases h
    · cases h
    · cases h
    · rename_i kind
      split at h
      · rename_i invalid
        cases h
        exact .notUtf8 kind invalid
      · split at h
        · rename_i empty
          cases h
          exact .emptyAtom kind empty
        · cases h
    · cases h
      exact .unknownKind (by simp_all)
  · intro h
    unfold fault
    cases h with
    | notUtf8 kind invalid => rw [kind, if_pos invalid]
    | emptyAtom kind empty =>
      have valid : Utf8.IsValid [] := Utf8.isValid_encode ""
      rw [kind, empty, if_neg (not_not_intro valid), if_pos rfl]
    | unknownKind other => split <;> simp_all

end Node

namespace Expr

/-! ### What is made from a node -/

/-- The expression mirrors what is looked at in a node. -/
inductive Mirrors (source : List UInt8) : Node → Expr → Prop
  | atom {start stop : Int} {children : List Node} {a : Atom}
      (text : Utf8.decode? (slice start stop source) = some a.text) :
      Mirrors source ⟨.atom, start, stop, children⟩ (.atom a)
  | closing {start stop : Int} {children : List Node} : Mirrors source ⟨.closing, start, stop, children⟩ nil
  | list {start stop : Int} {children : List Node} {es : List Expr}
      (inner : List.Forall₂ (Mirrors source) children.tail es) :
      Mirrors source ⟨.list, start, stop, children⟩ (list es)
  | recovered {kind : Kind} {start stop : Int} {children : List Node} {name : Atom} {es : List Expr}
      (recovery : kind.isRecovery = true) (named : name.text = kind.name)
      (inner : List.Forall₂ (Mirrors source) children.tail es) :
      Mirrors source ⟨kind, start, stop, children⟩ (list (.atom name :: es))

variable {source : List UInt8}

/-- What stands at the head of a recovered part is the atom with the name of its kind. -/
theorem heading_of_recovery {kind : Kind} (recovery : kind.isRecovery = true) {name : Atom}
    (named : name.text = kind.name) : heading kind = [.atom name] := by
  obtain ⟨text, nonempty⟩ := name
  cases named
  cases kind with
  | error => rfl
  | missing => rfl
  | _ => cases recovery

/-- A list or a recovered part is mirrored by a list of what its children but the first are mirrored by, behind the
heading. -/
theorem mirrors_iff_of_inner {kind : Kind} {start stop : Int} {children : List Node} {e : Expr}
    (h : kind = .list ∨ kind.isRecovery = true) :
    Mirrors source ⟨kind, start, stop, children⟩ e ↔
      ∃ es, List.Forall₂ (Mirrors source) children.tail es ∧ e = list (heading kind ++ es) := by
  constructor
  · intro mirrors
    cases mirrors with
    | atom => simp [Kind.isRecovery] at h
    | closing => simp [Kind.isRecovery] at h
    | list inner => exact ⟨_, inner, rfl⟩
    | recovered recovery named inner =>
      rw [heading_of_recovery recovery named]
      exact ⟨_, inner, rfl⟩
  · rintro ⟨es, inner, rfl⟩
    cases kind with
    | list => exact .list inner
    | error => exact .recovered rfl rfl inner
    | missing => exact .recovered rfl rfl inner
    | _ => simp [Kind.isRecovery] at h

mutual

/-- A node is turned into the expression that mirrors it. -/
theorem ofNode_eq_ok_iff (node : Node) {e : Expr} : ofNode source node = .ok e ↔ Mirrors source node e := by
  match node with
  | ⟨.atom, start, stop, children⟩ =>
    rw [ofNode, map_eq_ok_iff]
    constructor
    · rintro ⟨a, made, rfl⟩
      exact .atom (atomBetween_eq_ok_iff.1 made)
    · rintro (text | _ | _ | ⟨⟨⟩⟩)
      exact ⟨_, atomBetween_eq_ok_iff.2 text, rfl⟩
  | ⟨.list, start, stop, children⟩ =>
    rw [ofNode, map_eq_ok_iff, mirrors_iff_of_inner (.inl rfl)]
    simp only [ofInner_eq_ok_iff children]
    rfl
  | ⟨.error, start, stop, children⟩ =>
    rw [ofNode, map_eq_ok_iff, mirrors_iff_of_inner (.inr rfl)]
    simp only [ofInner_eq_ok_iff children]
  | ⟨.missing, start, stop, children⟩ =>
    rw [ofNode, map_eq_ok_iff, mirrors_iff_of_inner (.inr rfl)]
    simp only [ofInner_eq_ok_iff children]
  | ⟨.closing, _, _, _⟩ =>
    constructor
    · rintro ⟨⟩
      exact .closing
    · rintro (_ | _ | _ | ⟨⟨⟩⟩)
      rfl
  -- the kinds that no expression is made from are not among those of `Mirrors` either
  | ⟨.root, _, _, _⟩ => exact ⟨nofun, by rintro (_ | _ | _ | ⟨⟨⟩⟩)⟩
  | ⟨.opening, _, _, _⟩ => exact ⟨nofun, by rintro (_ | _ | _ | ⟨⟨⟩⟩)⟩
  | ⟨.other _ _, _, _, _⟩ => exact ⟨nofun, by rintro (_ | _ | _ | ⟨⟨⟩⟩)⟩

theorem ofInner_eq_ok_iff (children : List Node) {es : List Expr} :
    ofInner source children = .ok es ↔ List.Forall₂ (Mirrors source) children.tail es := by
  match children with
  | [] =>
    rw [List.tail_nil, List.forall₂_nil_left_iff, ofInner, Except.ok.injEq, eq_comm]
  | _ :: rest => exact ofAll_eq_ok_iff rest

theorem ofAll_eq_ok_iff (nodes : List Node) {es : List Expr} :
    ofAll source nodes = .ok es ↔ List.Forall₂ (Mirrors source) nodes es := by
  match nodes with
  | [] => rw [List.forall₂_nil_left_iff, ofAll, Except.ok.injEq, eq_comm]
  | node :: rest =>
    rw [ofAll_cons_eq_ok_iff, List.forall₂_cons_left_iff]
    simp only [ofNode_eq_ok_iff node, ofAll_eq_ok_iff rest]

end

/-- What comes of turning any node into an expression.  Looked at are the node itself and, below each list and each
recovered part among them, all children but the first.  There is an expression exactly if all of these are sound, and
otherwise the error is that of the first one that is not.  The expression is the one that mirrors the node. -/
theorem ofNode_outcome (source : List UInt8) (node : Node) :
    (∀ part, part ∈ node.visible ↔ node.LooksAt part) ∧
    ((∃ e, ofNode source node = .ok e) ↔ ∀ part ∈ node.visible, part.Sound source) ∧
    (∀ error, ofNode source node = .error error ↔
      ∃ before part after, node.visible = before ++ part :: after ∧ part.Faulty source error ∧
        ∀ earlier ∈ before, earlier.Sound source) ∧
    ∀ e, ofNode source node = .ok e ↔ Mirrors source node e := by
  refine ⟨fun part => Node.mem_visible_iff node, ⟨?_, ?_⟩, fun error => ?_, fun e => ofNode_eq_ok_iff node⟩
  · rintro ⟨e, made⟩ part mem
    rw [← Node.fault_eq_none_iff]
    refine List.findSome?_eq_none_iff.1 (Option.eq_none_iff_forall_ne_some.2 fun error first => ?_) part mem
    rw [← ofNode_eq_error_iff, made] at first
    cases first
  · intro sound
    cases outcome : ofNode source node with
    | ok e => exact ⟨e, rfl⟩
    | error error =>
      rw [ofNode_eq_error_iff] at outcome
      obtain ⟨part, mem, fault⟩ := List.exists_of_findSome?_eq_some outcome
      rw [Node.fault_eq_none_iff.2 (sound part mem)] at fault
      cases fault
  · rw [ofNode_eq_error_iff, List.findSome?_eq_some_iff]
    simp only [Node.fault_eq_some_iff, Node.fault_eq_none_iff]

/-- Behind the hidden first child of a list and below an atom, unknown kinds make no difference.  The first fault is the
atom that is not UTF-8, although an atom without bytes and a parenthesis follow. -/
theorem ofNode_outcome_first_fault :
    ofNode [0x61, 0xff] ⟨.error, 7, -3, [⟨.root, 0, 0, []⟩,
        ⟨.list, 0, 0, [⟨.other "hidden" (by decide), 0, 0, []⟩, ⟨.atom, -2, -1, [⟨.root, 0, 0, []⟩]⟩,
          ⟨.atom, 1, 9, []⟩]⟩,
        ⟨.atom, 2, 1, []⟩, ⟨.opening, 0, 0, []⟩]⟩ = .error (.notUtf8 1 9) ∧
      ofNode [0x61, 0xff] ⟨.missing, 7, -3, [⟨.root, 0, 0, []⟩, ⟨.atom, -2, -1, [⟨.root, 0, 0, []⟩]⟩,
        ⟨.list, 0, 0, []⟩, ⟨.closing, 0, 0, []⟩]⟩ =
        .ok (list [.atom ⟨"MISSING", by decide⟩, .atom ⟨"a", by decide⟩, list [], nil]) := by
  constructor
  · obtain ⟨-, -, fails, -⟩ := ofNode_outcome [0x61, 0xff] ⟨.error, 7, -3, [⟨.root, 0, 0, []⟩,
      ⟨.list, 0, 0, [⟨.other "hidden" (by decide), 0, 0, []⟩, ⟨.atom, -2, -1, [⟨.root, 0, 0, []⟩]⟩, ⟨.atom, 1, 9, []⟩]⟩,
      ⟨.atom, 2, 1, []⟩, ⟨.opening, 0, 0, []⟩]⟩
    refine (fails _).2 ⟨[_, _, _], ⟨.atom, 1, 9, []⟩, [_, _], rfl, .notUtf8 rfl (by decide), ?_⟩
    simp only [List.forall_mem_cons]
    exact ⟨.inr (by decide), .inr (by decide), .inl ⟨rfl, by decide, by decide⟩, nofun⟩
  · obtain ⟨-, -, -, mirrors⟩ := ofNode_outcome [0x61, 0xff] ⟨.missing, 7, -3, [⟨.root, 0, 0, []⟩,
      ⟨.atom, -2, -1, [⟨.root, 0, 0, []⟩]⟩, ⟨.list, 0, 0, []⟩, ⟨.closing, 0, 0, []⟩]⟩
    exact (mirrors _).2 (.recovered rfl rfl (.cons (.atom (by decide)) (.cons (.list .nil) (.cons .closing .nil))))

end Expr

end SExprLayout
