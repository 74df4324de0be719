import SExprLayout.Proofs.Source.Balanced
import SExprLayout.Proofs.Source.Position

/-!
# Where nodes stand

The nodes that are read from tokens are leaves, or they reach from the first of their children to the last (`Tight`).
So a node begins where its first leaf begins and ends where its last leaf ends.  The leaves of a concrete tree are the
tokens of its source, which come one after the other, and hence so do the children of each node, inside the node
(`placed_of_mem_within`).

Main statement: the concrete tree of a source loses no token and puts every node where it belongs (`read_placed`).
-/

namespace SExprLayout

namespace Node

mutual

/-- The nodes of a tree: the node itself and all nodes below it. -/
def within : Node → List Node
  | ⟨kind, start, stop, children⟩ => ⟨kind, start, stop, children⟩ :: withinAll children

/-- The nodes of trees in a row. -/
def withinAll : List Node → List Node
  | [] => []
  | node :: nodes => node.within ++ withinAll nodes

end

theorem within_eq (node : Node) : node.within = node :: withinAll node.children := by
  rcases node with ⟨kind, start, stop, children⟩
  rw [within]

theorem within_leaf (token : Token) : (leaf token).within = [leaf token] := rfl

theorem withinAll_append (before after : List Node) :
    withinAll (before ++ after) = withinAll before ++ withinAll after := by
  induction before with
  | nil => rfl
  | cons node before ih => rw [List.cons_append, withinAll, withinAll, ih, List.append_assoc]

theorem mem_withinAll {node : Node} {nodes : List Node} :
    node ∈ withinAll nodes ↔ ∃ tree ∈ nodes, node ∈ tree.within := by
  induction nodes with
  | nil => simp [withinAll]
  | cons tree nodes ih => simp [withinAll, ih]

theorem mem_within {node tree : Node} :
    node ∈ tree.within ↔ node = tree ∨ ∃ child ∈ tree.children, node ∈ child.within := by
  rw [within_eq, List.mem_cons, mem_withinAll]

/-! ### From the first leaf to the last -/

/-- Every node of the tree that is not the leaf of a token reaches from its first child to its last. -/
inductive Tight : Node → Prop
  | leaf (token : Token) : Tight (leaf token)
  | spanning {kind : Kind} {first : Node} {rest : List Node} (each : ∀ node ∈ first :: rest, Tight node) :
      Tight (spanning kind first rest)

theorem Tight.exists_first {node : Node} (h : node.Tight) :
    ∃ first later, node.leaves = first :: later ∧ node.start = first.start := by
  induction h with
  | leaf token => exact ⟨Node.leaf token, [], rfl, rfl⟩
  | @spanning kind first rest _ ih =>
    obtain ⟨one, later, leaves, start⟩ := ih first List.mem_cons_self
    refine ⟨one, later ++ rest.flatMap Node.leaves, ?_, start⟩
    rw [leaves_spanning, leaves, List.cons_append]

theorem Tight.exists_last {node : Node} (h : node.Tight) :
    ∃ before last, node.leaves = before ++ [last] ∧ node.stop = last.stop := by
  induction h with
  | leaf token => exact ⟨[], Node.leaf token, rfl, rfl⟩
  | @spanning kind first rest _ ih =>
    rcases List.eq_nil_or_concat rest with rfl | ⟨front, final, rfl⟩
    · obtain ⟨before, last, leaves, stop⟩ := ih first List.mem_cons_self
      refine ⟨before, last, ?_, stop⟩
      rw [leaves_spanning, leaves, List.flatMap_nil, List.append_nil]
    · obtain ⟨before, last, leaves, stop⟩ := ih final (by simp)
      refine ⟨first.leaves ++ front.flatMap Node.leaves ++ before, last, ?_, ?_⟩
      · rw [leaves_spanning, List.concat_eq_append, List.flatMap_append, List.flatMap_singleton, leaves]
        simp only [List.append_assoc]
      · rw [Node.spanning, List.concat_eq_append, List.getLast?_concat]
        exact stop

theorem Tight.leaves_ne_nil {node : Node} (h : node.Tight) : node.leaves ≠ [] := by
  obtain ⟨first, later, leaves, -⟩ := h.exists_first
  rw [leaves]
  exact List.cons_ne_nil _ _

end Node

theorem Balanced.tight {tokens : List Token} {nodes : List Node} (h : Balanced tokens nodes) :
    ∀ node ∈ nodes, node.Tight := by
  induction h with
  | nil => nofun
  | atom _ _ ih => exact List.forall_mem_cons.2 ⟨.leaf _, ih⟩
  | @list first last inner tokens items nodes _ _ _ _ ihInside ih =>
    have each : ∀ node ∈ Node.leaf first :: (items ++ [Node.leaf last]), node.Tight := by
      rw [List.forall_mem_cons, List.forall_mem_append, List.forall_mem_singleton]
      exact ⟨.leaf first, ihInside, .leaf last⟩
    exact List.forall_mem_cons.2 ⟨.spanning each, ih⟩

theorem TopLevel.tight {tokens : List Token} {nodes : List Node} (h : TopLevel tokens nodes) :
    ∀ node ∈ nodes, node.Tight := by
  induction h with
  | nil => nofun
  | node complete _ ih => exact List.forall_mem_cons.2 ⟨complete.tight _ List.mem_cons_self, ih⟩
  | stray _ _ ih => exact List.forall_mem_cons.2 ⟨.spanning (List.forall_mem_singleton.2 (.leaf _)), ih⟩

theorem Unclosed.tight {tokens : List Token} {nodes : List Node} (h : Unclosed tokens nodes) :
    ∀ node ∈ nodes, node.Tight := by
  induction h with
  | nil => nofun
  | cons _ inside _ ih =>
    rw [List.cons_append, List.forall_mem_cons, List.forall_mem_append]
    exact ⟨.leaf _, inside.tight, ih⟩

namespace Node

/-- The top-level nodes of any tokens reach from their first token to their last. -/
theorem tight_of_mem_forest {tokens : List Token} {node : Node} (h : node ∈ forest tokens) : node.Tight := by
  obtain ⟨before, after, nodes, rest, -, top, unclosed, e⟩ := forest_cases tokens
  rw [e] at h
  rcases List.mem_append.1 h with h | h
  · exact top.tight node h
  · cases rest with
    | nil => cases h
    | cons first rest =>
      rw [List.mem_singleton.1 h]
      exact .spanning unclosed.tight

/-! ### One after the other -/

/-- The nodes stand one after the other, and each has at least one byte. -/
structure InOrder (nodes : List Node) : Prop where
  proper : ∀ node ∈ nodes, node.start < node.stop
  apart : nodes.Pairwise fun node later => node.stop ≤ later.start

/-- The children stand one after the other, inside the node. -/
structure Placed (node : Node) : Prop where
  inOrder : InOrder node.children
  inside : ∀ child ∈ node.children, node.start ≤ child.start ∧ child.stop ≤ node.stop

theorem inOrder_leaves {source : List UInt8} {ts : List Token} (h : ts.Sublist (tokens source)) :
    InOrder (ts.map leaf) := by
  constructor
  · intro node mem
    obtain ⟨token, isToken, rfl⟩ := List.mem_map.1 mem
    exact Int.ofNat_lt.2 (start_lt_stop_of_mem_tokens (h.subset isToken))
  · rw [List.pairwise_map]
    exact ((pairwise_tokens source).sublist h).imp Int.ofNat_le.2

theorem inOrder_flatMap_leaves {nodes : List Node} (h : InOrder (nodes.flatMap leaves)) :
    (∀ node ∈ nodes, InOrder node.leaves) ∧
      nodes.Pairwise fun node later => ∀ leaf ∈ node.leaves, ∀ leaf' ∈ later.leaves, leaf.stop ≤ leaf'.start := by
  obtain ⟨each, between⟩ := List.pairwise_flatMap.1 h.apart
  refine ⟨fun node mem => ⟨?_, each node mem⟩, between⟩
  exact fun leaf mem' => h.proper leaf (List.mem_flatMap.2 ⟨node, mem, mem'⟩)

/-- A node holds each of its leaves. -/
theorem Tight.between {node : Node} (h : node.Tight) (order : InOrder node.leaves) :
    ∀ leaf ∈ node.leaves, node.start ≤ leaf.start ∧ leaf.stop ≤ node.stop := by
  intro leaf mem
  have proper := order.proper leaf mem
  constructor
  · obtain ⟨first, later, leaves, start⟩ := h.exists_first
    rw [leaves] at mem order
    rcases List.mem_cons.1 mem with rfl | mem
    · exact Int.le_of_eq start
    · have := order.proper first List.mem_cons_self
      have := (List.pairwise_cons.1 order.apart).1 leaf mem
      omega
  · obtain ⟨before, last, leaves, stop⟩ := h.exists_last
    rw [leaves] at mem order
    rcases List.mem_append.1 mem with mem | mem
    · have := order.proper last (by simp)
      have := (List.pairwise_append.1 order.apart).2.2 leaf mem last List.mem_cons_self
      omega
    · rw [List.mem_singleton.1 mem]
      exact Int.le_of_eq stop.symm

theorem Tight.start_lt_stop {node : Node} (h : node.Tight) (order : InOrder node.leaves) :
    node.start < node.stop := by
  obtain ⟨leaf, mem⟩ := List.exists_mem_of_ne_nil _ h.leaves_ne_nil
  have := order.proper leaf mem
  have := h.between order leaf mem
  omega

/-- Nodes stand one after the other if their leaves do. -/
theorem inOrder_of_leaves {nodes : List Node} (tight : ∀ node ∈ nodes, node.Tight)
    (order : InOrder (nodes.flatMap leaves)) : InOrder nodes := by
  obtain ⟨each, between⟩ := inOrder_flatMap_leaves order
  refine ⟨fun node mem => (tight node mem).start_lt_stop (each node mem), ?_⟩
  refine between.imp_of_mem ?_
  intro node later mem mem' apart
  obtain ⟨before, last, leaves, stop⟩ := (tight node mem).exists_last
  obtain ⟨first, after, leaves', start⟩ := (tight later mem').exists_first
  have := apart last (by simp [leaves]) first (by simp [leaves'])
  omega

/-- Each child of a node is within two bounds if its leaves are. -/
private theorem within_bounds {child : Node} (tight : child.Tight) {low high : Int}
    (h : ∀ leaf ∈ child.leaves, low ≤ leaf.start ∧ leaf.stop ≤ high) : low ≤ child.start ∧ child.stop ≤ high := by
  obtain ⟨first, later, leaves, start⟩ := tight.exists_first
  obtain ⟨before, last, leaves', stop⟩ := tight.exists_last
  have atFirst := h first (by simp [leaves])
  have atLast := h last (by simp [leaves'])
  exact ⟨start ▸ atFirst.1, stop ▸ atLast.2⟩

/-- Every node of a tree has its children in order and inside, if the leaves of the tree are in order. -/
theorem Tight.placed_of_mem_within {tree : Node} (h : tree.Tight) (order : InOrder tree.leaves) :
    ∀ node ∈ tree.within, node.Placed := by
  induction h with
  | leaf token =>
    intro node mem
    rw [within_eq] at mem
    rw [List.mem_singleton.1 mem]
    exact ⟨⟨nofun, .nil⟩, nofun⟩
  | @spanning kind first rest each ih =>
    have row : InOrder ((first :: rest).flatMap leaves) := by
      rwa [leaves_spanning] at order
    have bounds := (Tight.spanning each).between order
    intro node mem
    rw [within_eq] at mem
    rcases List.mem_cons.1 mem with rfl | mem
    · refine ⟨inOrder_of_leaves each row, ?_⟩
      intro child isChild
      apply within_bounds (each child isChild)
      intro leaf mem'
      apply bounds leaf
      rw [leaves_spanning]
      exact List.mem_flatMap.2 ⟨child, isChild, mem'⟩
    · obtain ⟨child, isChild, below⟩ := mem_withinAll.1 mem
      exact ih child isChild ((inOrder_flatMap_leaves row).1 child isChild) node below

/-- Every node below a tight one is tight. -/
theorem Tight.of_mem_within {tree : Node} (h : tree.Tight) : ∀ node ∈ tree.within, node.Tight := by
  induction h with
  | leaf token =>
    intro node mem
    rw [within_eq] at mem
    rw [List.mem_singleton.1 mem]
    exact .leaf token
  | @spanning kind first rest each ih =>
    intro node mem
    rw [within_eq] at mem
    rcases List.mem_cons.1 mem with rfl | mem
    · exact .spanning each
    · obtain ⟨child, isChild, below⟩ := mem_withinAll.1 mem
      exact ih child isChild node below

/-! ### The tokens inside a node -/

/-- The tokens of a source between the first and the last position of a node. -/
def tokensInside (source : List UInt8) (node : Node) : List Token :=
  (tokens source).filter fun token => node.start ≤ token.start ∧ token.stop ≤ node.stop

/-- The tokens inside a node are a stretch of the tokens if it holds all of them, and those before end before the node
begins, and those behind begin behind its end. -/
theorem tokensInside_eq {source : List UInt8} {node : Node} {before ts after : List Token}
    (split : tokens source = before ++ ts ++ after) (early : ∀ token ∈ before, token.stop ≤ node.start)
    (inside : ∀ token ∈ ts, node.start ≤ token.start ∧ token.stop ≤ node.stop)
    (late : ∀ token ∈ after, node.stop ≤ token.start) : node.tokensInside source = ts := by
  have proper : ∀ token ∈ before ++ ts ++ after, token.start < token.stop :=
    fun token mem => start_lt_stop_of_mem_tokens (split ▸ mem)
  rw [tokensInside, split, List.filter_append, List.filter_append]
  have none_before : before.filter (fun token => node.start ≤ token.start ∧ token.stop ≤ node.stop) = [] := by
    rw [List.filter_eq_nil_iff]
    intro token mem
    have := early token mem
    have := proper token (by simp [mem])
    simp only [decide_eq_true_eq, not_and]
    omega
  have none_after : after.filter (fun token => node.start ≤ token.start ∧ token.stop ≤ node.stop) = [] := by
    rw [List.filter_eq_nil_iff]
    intro token mem
    have := late token mem
    have := proper token (by simp [mem])
    simp only [decide_eq_true_eq, not_and]
    omega
  have all : ts.filter (fun token => node.start ≤ token.start ∧ token.stop ≤ node.stop) = ts := by
    rw [List.filter_eq_self]
    intro token mem
    rw [decide_eq_true_eq]
    exact inside token mem
  rw [none_before, none_after, all, List.nil_append, List.append_nil]

/-- The tokens inside a node are those that its leaves stand for. -/
theorem Tight.tokensInside_eq {source : List UInt8} {before ts after : List Token} {node : Node} (h : node.Tight)
    (split : tokens source = before ++ ts ++ after) (leaves : node.leaves = ts.map Node.leaf) :
    node.tokensInside source = ts := by
  have order : (before ++ ts ++ after).Pairwise fun t u => t.stop ≤ u.start := split ▸ pairwise_tokens source
  rw [List.pairwise_append, List.pairwise_append] at order
  obtain ⟨⟨-, -, early⟩, -, late⟩ := order
  obtain ⟨first, rest, atFront, start⟩ := h.exists_first
  obtain ⟨front, last, atEnd, stop⟩ := h.exists_last
  obtain ⟨one, oneMem, rfl⟩ : ∃ one ∈ ts, Node.leaf one = first := by
    rw [← List.mem_map, ← leaves, atFront]
    exact List.mem_cons_self
  obtain ⟨other, otherMem, rfl⟩ : ∃ other ∈ ts, Node.leaf other = last := by
    rw [← List.mem_map, ← leaves, atEnd]
    simp
  simp only [Node.leaf] at start stop
  have sublist : ts.Sublist (tokens source) := by
    rw [split, List.append_assoc]
    exact (List.sublist_append_left ts after).trans (List.sublist_append_right before _)
  have inside := h.between (leaves ▸ inOrder_leaves sublist)
  -- an earlier token ends before the node's first one begins, and a later one begins behind its last
  refine Node.tokensInside_eq split ?_ ?_ ?_
  · intro token mem
    have := early token mem one oneMem
    omega
  · intro token mem
    exact inside (Node.leaf token) (leaves ▸ List.mem_map_of_mem mem)
  · intro token mem
    have := late other (by simp [otherMem]) token mem
    omega

/-! ### The whole source -/

theorem forest_ne_nil {tokens : List Token} (some : tokens ≠ []) : forest tokens ≠ [] := by
  intro none
  have leaves := leaves_forest tokens
  rw [none] at leaves
  exact some (List.map_eq_nil_iff.1 leaves.symm)

/-- A source that has a token has a concrete tree. -/
theorem read_of_tokens_ne_nil {source : List UInt8} (some : tokens source ≠ []) :
    read source = .ok ⟨.root, 0, source.length, forest (tokens source)⟩ := by
  obtain ⟨token, ts, e⟩ := List.exists_cons_of_ne_nil some
  rw [read, e]

theorem read_eq_ok_iff {source : List UInt8} {root : Node} :
    read source = .ok root ↔ tokens source ≠ [] ∧ root = ⟨.root, 0, source.length, forest (tokens source)⟩ := by
  by_cases none : tokens source = []
  · simp [read, none]
  · rw [read_of_tokens_ne_nil none, Except.ok.injEq, eq_comm]
    exact (and_iff_right none).symm

/-- The leaves of the top-level nodes of a source are in order. -/
theorem inOrder_leaves_forest (source : List UInt8) : InOrder ((forest (tokens source)).flatMap leaves) := by
  rw [leaves_forest]
  exact inOrder_leaves (List.Sublist.refl _)

/-- The top-level nodes of a source stand one after the other, inside the source. -/
private theorem placed_root (source : List UInt8) : Placed ⟨.root, 0, source.length, forest (tokens source)⟩ := by
  have tight : ∀ node ∈ forest (tokens source), node.Tight := fun _ => tight_of_mem_forest
  refine ⟨inOrder_of_leaves tight (inOrder_leaves_forest source), ?_⟩
  intro child isChild
  apply within_bounds (tight child isChild)
  intro one isLeaf
  have isToken : one ∈ (tokens source).map leaf := by
    rw [← leaves_forest]
    exact List.mem_flatMap.2 ⟨child, isChild, isLeaf⟩
  obtain ⟨token, mem, rfl⟩ := List.mem_map.1 isToken
  exact ⟨Int.natCast_nonneg _, Int.ofNat_le.2 (stop_le_of_mem_tokens mem)⟩

/-- Every node of a tree has at least one byte and stands inside the tree, if children stand inside their parents. -/
private theorem Tight.inside_of_mem_within {tree : Node} (h : tree.Tight) (proper : tree.start < tree.stop)
    (placed : ∀ node ∈ tree.within, node.Placed) :
    ∀ node ∈ tree.within, tree.start ≤ node.start ∧ node.start < node.stop ∧ node.stop ≤ tree.stop := by
  induction h with
  | leaf token =>
    rw [within_leaf, List.forall_mem_singleton]
    omega
  | @spanning kind first rest each ih =>
    rw [within_eq, List.forall_mem_cons] at placed ⊢
    obtain ⟨here, below⟩ := placed
    refine ⟨by omega, ?_⟩
    intro node mem
    obtain ⟨child, isChild, among⟩ := mem_withinAll.1 mem
    have bounds := here.inside child isChild
    have inChild := ih child isChild (here.inOrder.proper child isChild)
      (fun inner mem => below inner (mem_withinAll.2 ⟨child, isChild, mem⟩)) node among
    omega

/-- The node and all nodes below it stand in a source of the given length, each with at least one byte. -/
def Inside (length : Nat) (tree : Node) : Prop :=
  ∀ node ∈ tree.within, 0 ≤ node.start ∧ node.start < node.stop ∧ node.stop ≤ length

/-- The nodes that are read from a source stand inside it. -/
theorem inside_of_mem_forest {source : List UInt8} {tree : Node} (h : tree ∈ forest (tokens source)) :
    tree.Inside source.length := by
  have root := placed_root source
  have tight := tight_of_mem_forest h
  have order := (inOrder_flatMap_leaves (inOrder_leaves_forest source)).1 tree h
  have bounds := root.inside tree h
  intro node mem
  have inTree := tight.inside_of_mem_within (root.inOrder.proper tree h) (tight.placed_of_mem_within order) node mem
  simp only at bounds
  omega

/-- A list or an error has children: only a leaf has none. -/
private theorem Tight.children_ne_nil {node : Node} (h : node.Tight) (kind : node.kind = .list ∨ node.kind = .error) :
    node.children ≠ [] := by
  cases h with
  | leaf token => rcases token with ⟨start, _ | _ | bytes⟩ <;> rcases kind with kind | kind <;> cases kind
  | spanning => exact List.cons_ne_nil _ _

/-- The concrete tree of a source that has a token reaches over the whole source.  Its leaves are the tokens of the
source, each of its lists and errors reaches from its first leaf to its last, and the children of every node stand one
after the other, inside the node. -/
theorem read_placed {source : List UInt8} (some : tokens source ≠ []) :
    ∃ root, read source = .ok root ∧ root.leaves = (tokens source).map leaf ∧
      root.start = 0 ∧ root.stop = source.length ∧
      (∀ node ∈ root.within, node.kind = .list ∨ node.kind = .error →
        node.children ≠ [] ∧
        (∃ first later, node.leaves = first :: later ∧ node.start = first.start) ∧
        ∃ before last, node.leaves = before ++ [last] ∧ node.stop = last.stop) ∧
      ∀ node ∈ root.within, node.Placed := by
  refine ⟨⟨.root, 0, source.length, forest (tokens source)⟩, ?_, ?_, rfl, rfl, ?_, ?_⟩
  · obtain ⟨token, ts, e⟩ := List.exists_cons_of_ne_nil some
    rw [read, e]
  · obtain ⟨first, rest, e⟩ := List.exists_cons_of_ne_nil (forest_ne_nil some)
    rw [← leaves_forest, e, leaves, leavesAll_eq_flatMap]
  · intro node mem kind
    rw [within_eq] at mem
    rcases List.mem_cons.1 mem with rfl | mem
    · rcases kind with kind | kind <;> cases kind
    · obtain ⟨tree, isTop, below⟩ := mem_withinAll.1 mem
      have tight := (tight_of_mem_forest isTop).of_mem_within node below
      exact ⟨tight.children_ne_nil kind, tight.exists_first, tight.exists_last⟩
  · intro node mem
    rw [within_eq] at mem
    rcases List.mem_cons.1 mem with rfl | mem
    · exact placed_root source
    · obtain ⟨tree, isTop, below⟩ := mem_withinAll.1 mem
      have order := (inOrder_flatMap_leaves (inOrder_leaves_forest source)).1 tree isTop
      exact (tight_of_mem_forest isTop).placed_of_mem_within order node below

/-- The source `)(a (b)`. -/
theorem read_placed_unmatched :
    tokens [0x29, 0x28, 0x61, 0x20, 0x28, 0x62, 0x29] ≠ [] ∧
      ∃ root, read [0x29, 0x28, 0x61, 0x20, 0x28, 0x62, 0x29] = .ok root ∧
        root.leaves = [leaf ⟨0, .closing⟩, leaf ⟨1, .opening⟩, leaf ⟨2, .atom [0x61]⟩, leaf ⟨4, .opening⟩,
          leaf ⟨5, .atom [0x62]⟩, leaf ⟨6, .closing⟩] ∧
        root.stop = 7 ∧ ∀ node ∈ root.within, node.Placed := by
  have some : tokens [0x29, 0x28, 0x61, 0x20, 0x28, 0x62, 0x29] ≠ [] := by decide
  obtain ⟨root, isRoot, leaves, -, stop, -, placed⟩ := read_placed some
  exact ⟨some, root, isRoot, leaves, stop, placed⟩

end Node

end SExprLayout
