import SExprLayout.Proofs.Source.Matching

/-!
# Partners of parentheses

The parentheses of a source are matched from left to right.  A closing parenthesis is the partner of the latest opening
one that waits for one (`pairs`), and a stray if none waits (`strays`); the opening ones that wait at the end are never
closed.  Tokens are balanced exactly if nothing is stray and everything is closed (`matched_iff`).

Main statement: the error nodes of a concrete tree are a node for each stray, and one last node for the parentheses that
are never closed, if there are any.  All of them stand at the top level, and the lists of the tree are the pairs
(`read_recovery`).
-/

namespace SExprLayout

/-! ### Matching from left to right -/

/-- The opening parenthesis that the token closes, where the given ones wait for a partner, latest first. -/
def partner (before : List Token) (token : Token) : Option Token :=
  match token.lexeme with
  | .closing => before.head?
  | _ => none

/-- The pairs of an opening parenthesis and its closing one, where the given ones wait before the tokens. -/
def pairsFrom (before : List Token) : List Token → List (Token × Token)
  | [] => []
  | token :: rest => ((partner before token).map (·, token)).toList ++ pairsFrom (waiting before token) rest

/-- The closing parentheses without a partner, where the given ones wait before the tokens. -/
def straysFrom (before : List Token) : List Token → List Token
  | [] => []
  | token :: rest =>
    (if token.lexeme = .closing ∧ partner before token = none then [token] else []) ++
      straysFrom (waiting before token) rest

/-- The pairs of an opening parenthesis and the closing one that is its partner, in the order of the latter. -/
def pairs (tokens : List Token) : List (Token × Token) := pairsFrom [] tokens

/-- The closing parentheses that no opening one waits for, in their order. -/
def strays (tokens : List Token) : List Token := straysFrom [] tokens

/-- Every parenthesis has its partner. -/
def Matched (tokens : List Token) : Prop := strays tokens = [] ∧ neverClosed tokens = []

instance (tokens : List Token) : Decidable (Matched tokens) := inferInstanceAs (Decidable (_ ∧ _))

theorem pairsFrom_append (before ts us : List Token) :
    pairsFrom before (ts ++ us) = pairsFrom before ts ++ pairsFrom (ts.foldl waiting before) us := by
  induction ts generalizing before with
  | nil => rfl
  | cons token ts ih => rw [List.cons_append, pairsFrom, ih, pairsFrom, List.append_assoc, List.foldl_cons]

theorem straysFrom_append (before ts us : List Token) :
    straysFrom before (ts ++ us) = straysFrom before ts ++ straysFrom (ts.foldl waiting before) us := by
  induction ts generalizing before with
  | nil => rfl
  | cons token ts ih => rw [List.cons_append, straysFrom, ih, straysFrom, List.append_assoc, List.foldl_cons]

/-! ### The lists of a tree -/

namespace Node

/-- The node is a list from the first parenthesis to the last, with atoms and lists between them. -/
structure Encloses (first last : Token) (node : Node) : Prop where
  kind : node.kind = .list
  children : ∃ items, node.children = leaf first :: items ++ [leaf last] ∧
    ∀ item ∈ items, item.kind = .atom ∨ item.kind = .list

/-- The node was not recovered, and if it is a list, it goes from one parenthesis of a pair to the other. -/
structure Regular (pairs : List (Token × Token)) (node : Node) : Prop where
  intact : node.kind.isRecovery = false
  enclosing : node.kind = .list → ∃ first last, (first, last) ∈ pairs ∧ node.Encloses first last

theorem Regular.mono {ps qs : List (Token × Token)} (h : ps ⊆ qs) {node : Node} (regular : node.Regular ps) :
    node.Regular qs := by
  refine ⟨regular.intact, ?_⟩
  intro kind
  obtain ⟨first, last, mem, encloses⟩ := regular.enclosing kind
  exact ⟨first, last, h mem, encloses⟩

theorem Regular.kind_ne {ps : List (Token × Token)} {node : Node} (h : node.Regular ps) {kind : Kind}
    (recovery : kind.isRecovery = true) : node.kind ≠ kind := by
  rintro rfl
  rw [h.intact] at recovery
  cases recovery

theorem regular_leaf (ps : List (Token × Token)) (token : Token) : (leaf token).Regular ps := by
  rcases token with ⟨start, _ | _ | bytes⟩ <;> exact ⟨rfl, nofun⟩

end Node

/-- The nodes are regular, and each pair has its list among them. -/
structure Enclosing (ps : List (Token × Token)) (nodes : List Node) : Prop where
  regular : ∀ node ∈ nodes, node.Regular ps
  complete : ∀ first last, (first, last) ∈ ps → ∃ node ∈ nodes, node.Encloses first last

theorem Enclosing.nil : Enclosing [] [] := ⟨nofun, nofun⟩

theorem Enclosing.leaf (token : Token) : Enclosing [] [Node.leaf token] :=
  ⟨List.forall_mem_singleton.2 (Node.regular_leaf [] token), nofun⟩

theorem Enclosing.append {ps qs : List (Token × Token)} {nodes more : List Node} (h : Enclosing ps nodes)
    (h' : Enclosing qs more) : Enclosing (ps ++ qs) (nodes ++ more) := by
  constructor
  · rw [List.forall_mem_append]
    constructor
    · intro node mem
      exact (h.regular node mem).mono (List.subset_append_left ps qs)
    · intro node mem
      exact (h'.regular node mem).mono (List.subset_append_right ps qs)
  · intro first last mem
    rcases List.mem_append.1 mem with mem | mem
    · obtain ⟨node, among, encloses⟩ := h.complete first last mem
      exact ⟨node, List.mem_append_left _ among, encloses⟩
    · obtain ⟨node, among, encloses⟩ := h'.complete first last mem
      exact ⟨node, List.mem_append_right _ among, encloses⟩

/-- A list from one parenthesis to the other comes before the nodes in it, and its pair after the pairs in it. -/
theorem Enclosing.list {ps : List (Token × Token)} {nodes : List Node} (h : Enclosing ps nodes) {first last : Token}
    {node : Node} (encloses : node.Encloses first last) : Enclosing (ps ++ [(first, last)]) (node :: nodes) := by
  have intact : node.kind.isRecovery = false := by
    rw [encloses.kind]
    rfl
  have here : (first, last) ∈ ps ++ [(first, last)] := by simp
  constructor
  · rw [List.forall_mem_cons]
    refine ⟨⟨intact, fun _ => ⟨first, last, here, encloses⟩⟩, ?_⟩
    intro inner mem
    exact (h.regular inner mem).mono (List.subset_append_left ps _)
  · intro first' last' mem
    rcases List.mem_append.1 mem with mem | mem
    · obtain ⟨inner, among, encloses'⟩ := h.complete first' last' mem
      exact ⟨inner, List.mem_cons_of_mem _ among, encloses'⟩
    · obtain ⟨rfl, rfl⟩ := Prod.mk.inj (List.mem_singleton.1 mem)
      exact ⟨node, List.mem_cons_self, encloses⟩

/-! ### Balanced tokens -/

theorem partner_closing {token : Token} (h : token.lexeme = .closing) (before : List Token) :
    partner before token = before.head? := by
  rw [partner, h]

theorem partner_opening {token : Token} (h : token.lexeme = .opening) (before : List Token) :
    partner before token = none := by
  rw [partner, h]

theorem partner_atom {token : Token} {bytes : List UInt8} (h : token.lexeme = .atom bytes) (before : List Token) :
    partner before token = none := by
  rw [partner, h]

/-- The first parenthesis of a balanced stretch between two parentheses and the last are a pair. -/
theorem Balanced.pairsFrom_between {inner : List Token} {items : List Node} (h : Balanced inner items)
    {first last : Token} (opens : first.lexeme = .opening) (closes : last.lexeme = .closing)
    (before ts : List Token) :
    pairsFrom before (first :: inner ++ last :: ts) =
      pairsFrom (first :: before) inner ++ [(first, last)] ++ pairsFrom before ts := by
  rw [List.cons_append, pairsFrom, partner_opening opens, waiting_opening opens, pairsFrom_append, h.foldl_waiting,
    pairsFrom, partner_closing closes, waiting_closing closes]
  simp

theorem Balanced.straysFrom_eq_nil {ts : List Token} {nodes : List Node} (h : Balanced ts nodes)
    (before : List Token) : straysFrom before ts = [] := by
  induction h generalizing before with
  | nil => rfl
  | @atom token bytes ts nodes lexeme _ ih =>
    rw [straysFrom, waiting_atom lexeme, ih, if_neg (by simp [lexeme])]
    rfl
  | @list first last inner ts items nodes opens inside closes _ ihInside ih =>
    rw [List.cons_append, straysFrom, waiting_opening opens, straysFrom_append, ihInside, inside.foldl_waiting,
      straysFrom, waiting_closing closes, List.tail_cons, ih]
    simp [opens, partner_closing closes]

/-- The lists among the nodes of balanced tokens are the pairs of the tokens. -/
theorem Balanced.enclosing {ts : List Token} {nodes : List Node} (h : Balanced ts nodes) (before : List Token) :
    Enclosing (pairsFrom before ts) (Node.withinAll nodes) := by
  induction h generalizing before with
  | nil => exact .nil
  | @atom token bytes ts nodes lexeme _ ih =>
    rw [pairsFrom, partner_atom lexeme, waiting_atom lexeme, Node.withinAll, Node.within_leaf]
    exact (Enclosing.leaf token).append (ih before)
  | @list first last inner ts items nodes opens inside closes _ ihInside ih =>
    have encloses : (Node.spanning .list (Node.leaf first) (items ++ [Node.leaf last])).Encloses first last :=
      ⟨rfl, items, rfl, inside.kind_of_mem⟩
    have below : Enclosing (pairsFrom (first :: before) inner)
        (Node.withinAll (Node.leaf first :: (items ++ [Node.leaf last]))) := by
      have row := ((Enclosing.leaf first).append (ihInside (first :: before))).append (Enclosing.leaf last)
      simpa [Node.withinAll, Node.withinAll_append, Node.within_leaf] using row
    rw [inside.pairsFrom_between opens closes, Node.withinAll, Node.within_eq]
    exact (below.list encloses).append (ih before)

/-! ### Tokens of the top level -/

theorem TopLevel.foldl_waiting {ts : List Token} {nodes : List Node} (h : TopLevel ts nodes) :
    ts.foldl waiting [] = [] := by
  induction h with
  | nil => rfl
  | node complete _ ih => rw [List.foldl_append, complete.foldl_waiting, ih]
  | stray closes _ ih => rw [List.foldl_cons, waiting_closing closes, List.tail_nil, ih]

/-- The node of a closing parenthesis without a partner. -/
def Node.stray (token : Token) : Node := ⟨.error, token.start, token.stop, [leaf token]⟩

/-- The errors at the top level are the strays. -/
theorem TopLevel.filter_error {ts : List Token} {nodes : List Node} (h : TopLevel ts nodes) :
    nodes.filter (·.kind = .error) = (strays ts).map Node.stray := by
  unfold strays
  induction h with
  | nil => rfl
  | @node inner ts node nodes complete _ ih =>
    have regular : ¬node.kind = .error := complete.kind_ne_error node List.mem_cons_self
    rw [straysFrom_append, complete.straysFrom_eq_nil, complete.foldl_waiting, List.nil_append, ← ih,
      List.filter_cons_of_neg (by simpa using regular)]
  | @stray token ts nodes closes _ ih =>
    rw [straysFrom, partner_closing closes, waiting_closing closes, List.tail_nil,
      List.filter_cons_of_pos (by rfl), ih]
    simp [closes, Node.stray]
    rfl

theorem TopLevel.enclosing {ts : List Token} {nodes : List Node} (h : TopLevel ts nodes) :
    Enclosing (pairs ts) (Node.withinAll (nodes.filter (·.kind ≠ .error))) := by
  unfold pairs
  induction h with
  | nil => exact .nil
  | @node inner ts node nodes complete _ ih =>
    have regular : node.kind ≠ .error := complete.kind_ne_error node List.mem_cons_self
    have here := complete.enclosing []
    rw [Node.withinAll, Node.withinAll, List.append_nil] at here
    rw [pairsFrom_append, complete.foldl_waiting, List.filter_cons_of_pos (by simpa using regular), Node.withinAll]
    exact here.append ih
  | @stray token ts nodes closes _ ih =>
    rw [pairsFrom, partner_closing closes, waiting_closing closes, List.tail_nil,
      List.filter_cons_of_neg (by simp [Node.spanning])]
    exact ih

/-- Below a stray there is only its token. -/
private theorem Node.regular_of_mem_stray {ps : List (Token × Token)} {token : Token} {node : Node}
    (h : node ∈ withinAll (stray token).children) : node.Regular ps := by
  have same : node = leaf token := by simpa [stray, withinAll, within_leaf] using h
  rw [same]
  exact regular_leaf ps token

/-- A node of the top level is an error or regular, and everything below it is regular. -/
theorem TopLevel.error_or_regular {ts : List Token} {nodes : List Node} (h : TopLevel ts nodes) :
    ∀ child ∈ nodes, (child.kind = .error ∨ child.Regular (pairs ts)) ∧
      ∀ node ∈ Node.withinAll child.children, node.Regular (pairs ts) := by
  intro child mem
  by_cases kind : child.kind = .error
  · have isStray : child ∈ (strays ts).map Node.stray := by
      rw [← h.filter_error, List.mem_filter]
      exact ⟨mem, by simpa using kind⟩
    obtain ⟨token, -, rfl⟩ := List.mem_map.1 isStray
    exact ⟨.inl kind, fun node => Node.regular_of_mem_stray⟩
  · have kept : child ∈ nodes.filter (·.kind ≠ .error) := List.mem_filter.2 ⟨mem, by simpa using kind⟩
    have each : ∀ node ∈ child.within, node.Regular (pairs ts) := by
      intro node below
      exact h.enclosing.regular node (Node.mem_withinAll.2 ⟨child, kept, below⟩)
    rw [Node.within_eq, List.forall_mem_cons] at each
    exact ⟨.inr each.1, each.2⟩

/-! ### Tokens that are never closed -/

theorem Unclosed.straysFrom_eq_nil {ts : List Token} {nodes : List Node} (h : Unclosed ts nodes)
    (before : List Token) : straysFrom before ts = [] := by
  induction h generalizing before with
  | nil => rfl
  | @cons first inner ts items nodes opens inside _ ih =>
    rw [List.cons_append, straysFrom, waiting_opening opens, straysFrom_append, inside.straysFrom_eq_nil,
      inside.foldl_waiting, ih]
    simp [opens]

theorem Unclosed.enclosing {ts : List Token} {nodes : List Node} (h : Unclosed ts nodes) (before : List Token) :
    Enclosing (pairsFrom before ts) (Node.withinAll nodes) := by
  induction h generalizing before with
  | nil => exact .nil
  | @cons first inner ts items nodes opens inside _ ih =>
    rw [List.cons_append, pairsFrom, partner_opening opens, waiting_opening opens, pairsFrom_append,
      inside.foldl_waiting, List.cons_append, Node.withinAll, Node.within_leaf, Node.withinAll_append]
    exact (Enclosing.leaf first).append ((inside.enclosing _).append (ih _))

private theorem Balanced.filter_opening {ts : List Token} {nodes : List Node} (h : Balanced ts nodes) :
    nodes.filter (·.kind = .opening) = [] := by
  rw [List.filter_eq_nil_iff]
  intro node mem
  rcases h.kind_of_mem node mem with kind | kind <;> simp [kind]

/-- The bare opening parentheses among the nodes go on waiting. -/
theorem Unclosed.foldl_waiting {ts : List Token} {nodes : List Node} (h : Unclosed ts nodes) (before : List Token) :
    ∃ openings : List Token, ts.foldl waiting before = openings.reverse ++ before ∧
      nodes.filter (·.kind = .opening) = openings.map Node.leaf := by
  induction h generalizing before with
  | nil => exact ⟨[], rfl, rfl⟩
  | @cons first inner ts items nodes opens inside _ ih =>
    obtain ⟨openings, waits, bare⟩ := ih (first :: before)
    have isOpening : (Node.leaf first).kind = .opening := by
      rw [Node.leaf, opens]
      rfl
    refine ⟨first :: openings, ?_, ?_⟩
    · rw [List.foldl_append, List.foldl_cons, waiting_opening opens, inside.foldl_waiting, waits]
      simp
    · rw [List.filter_append, List.filter_cons_of_pos (by simp [isOpening]), inside.filter_opening, bare]
      rfl

/-- What stands at the end of the top level: nothing if every parenthesis is closed, and otherwise one error that begins
with the outermost one that is not, and in which the others stand as they are. -/
inductive Node.Remainder : List Token → List Node → Prop
  | none : Remainder [] []
  | error {outermost : Token} {others : List Token} {items : List Node} (stop : Int)
      (bare : items.filter (·.kind = .opening) = others.map leaf) :
      Remainder (outermost :: others) [⟨.error, outermost.start, stop, leaf outermost :: items⟩]

theorem Unclosed.remainder {ts : List Token} {nodes : List Node} (h : Unclosed ts nodes) :
    Node.Remainder (neverClosed ts) (Node.recovered nodes) := by
  cases h with
  | nil => exact .none
  | @cons first inner ts items nodes opens inside others =>
    obtain ⟨openings, waits, bare⟩ := others.foldl_waiting [first]
    have never : neverClosed (first :: inner ++ ts) = first :: openings := by
      rw [neverClosed, List.foldl_append, List.foldl_cons, waiting_opening opens, inside.foldl_waiting, waits]
      simp
    have inRow : (items ++ nodes).filter (·.kind = .opening) = openings.map Node.leaf := by
      rw [List.filter_append, inside.filter_opening, bare, List.nil_append]
    rw [never]
    exact .error _ inRow

/-! ### Matched tokens -/

/-- Where everything is closed there is nothing but the top level. -/
theorem exists_topLevel {ts : List Token} (closed : neverClosed ts = []) : ∃ nodes, TopLevel ts nodes := by
  obtain ⟨before, after, nodes, rest, rfl, top, unclosed, -⟩ := forest_cases ts
  cases unclosed with
  | nil => exact ⟨nodes, by rwa [List.append_nil]⟩
  | @cons first inner ts items rest opens inside others =>
    have never : first ∈ neverClosed (before ++ (first :: inner ++ ts)) :=
      (Unclosed.cons opens inside others).mem_neverClosed
    rw [closed] at never
    cases never

theorem TopLevel.balanced {ts : List Token} {nodes : List Node} (h : TopLevel ts nodes) (none : strays ts = []) :
    Balanced ts nodes := by
  unfold strays at none
  induction h with
  | nil => exact .nil
  | node complete _ ih =>
    rw [straysFrom_append, complete.foldl_waiting] at none
    exact complete.append (ih (List.append_eq_nil_iff.1 none).2)
  | stray closes _ _ =>
    rw [straysFrom, partner_closing closes, if_pos ⟨closes, rfl⟩] at none
    cases none

/-- Every parenthesis has its partner exactly if the tokens are balanced. -/
theorem matched_iff {ts : List Token} : Matched ts ↔ ∃ nodes, Balanced ts nodes := by
  constructor
  · rintro ⟨noStray, closed⟩
    obtain ⟨nodes, top⟩ := exists_topLevel closed
    exact ⟨nodes, top.balanced noStray⟩
  · rintro ⟨nodes, balanced⟩
    refine ⟨balanced.straysFrom_eq_nil [], ?_⟩
    rw [neverClosed, balanced.foldl_waiting, List.reverse_nil]

/-! ### The tree of a source -/

namespace Node

private theorem pairs_append {before : List Token} {nodes : List Node} (top : TopLevel before nodes)
    (after : List Token) : pairs (before ++ after) = pairs before ++ pairs after := by
  rw [pairs, pairsFrom_append, top.foldl_waiting, pairs, pairs]

private theorem strays_append {after : List Token} {rest : List Node} (unclosed : Unclosed after rest)
    (before : List Token) : strays (before ++ after) = strays before := by
  rw [strays, straysFrom_append, unclosed.straysFrom_eq_nil, List.append_nil, strays]

private theorem neverClosed_append {before : List Token} {nodes : List Node} (top : TopLevel before nodes)
    (after : List Token) : neverClosed (before ++ after) = neverClosed after := by
  rw [neverClosed, List.foldl_append, top.foldl_waiting, neverClosed]

/-- The top level of any tokens holds a node for each stray and ends in what is never closed, and apart from that
everything in it is regular. -/
theorem forest_recovery (ts : List Token) :
    ∃ front last, forest ts = front ++ last ∧ front.filter (·.kind = .error) = (strays ts).map stray ∧
      Remainder (neverClosed ts) last ∧
      (∀ child ∈ forest ts, (child.kind = .error ∨ child.Regular (pairs ts)) ∧
        ∀ node ∈ withinAll child.children, node.Regular (pairs ts)) ∧
      ∀ first last, (first, last) ∈ pairs ts → ∃ node ∈ withinAll (forest ts), node.Encloses first last := by
  obtain ⟨before, after, front, rest, rfl, top, unclosed, forest⟩ := forest_cases ts
  have closed : Enclosing (pairs before) (withinAll (front.filter (·.kind ≠ .error))) := top.enclosing
  have bare : Enclosing (pairs after) (withinAll rest) := unclosed.enclosing []
  rw [forest, pairs_append top, strays_append unclosed, neverClosed_append top]
  refine ⟨front, recovered rest, rfl, top.filter_error, unclosed.remainder, ?_, ?_⟩
  · intro child mem
    rcases List.mem_append.1 mem with mem | mem
    · obtain ⟨here, inside⟩ := top.error_or_regular child mem
      have wider : pairs before ⊆ pairs before ++ pairs after := List.subset_append_left _ _
      exact ⟨here.imp_right (Regular.mono wider), fun node below => (inside node below).mono wider⟩
    · cases rest with
      | nil => cases mem
      | cons opening items =>
        rw [List.mem_singleton.1 mem]
        refine ⟨.inl rfl, ?_⟩
        intro node below
        exact (bare.regular node below).mono (List.subset_append_right _ _)
  · intro first last mem
    rw [withinAll_append]
    rcases List.mem_append.1 mem with mem | mem
    · obtain ⟨node, among, encloses⟩ := closed.complete first last mem
      obtain ⟨child, kept, below⟩ := mem_withinAll.1 among
      exact ⟨node, List.mem_append_left _ (mem_withinAll.2 ⟨child, (List.mem_filter.1 kept).1, below⟩), encloses⟩
    · obtain ⟨node, among, encloses⟩ := bare.complete first last mem
      refine ⟨node, List.mem_append_right _ ?_, encloses⟩
      cases rest with
      | nil => cases among
      | cons opening items =>
        rw [recovered, withinAll, within_eq]
        exact List.mem_append_left _ (List.mem_cons_of_mem _ among)

/-- There is no error at the top level exactly if there is neither a stray nor a remainder. -/
private theorem forall_ne_error_iff {ts : List Token} {front last : List Node}
    (errors : front.filter (·.kind = .error) = (strays ts).map stray) (remainder : Remainder (neverClosed ts) last) :
    (∀ child ∈ front ++ last, child.kind ≠ .error) ↔ Matched ts := by
  have noStray : (∀ child ∈ front, child.kind ≠ .error) ↔ strays ts = [] := by
    rw [← List.map_eq_nil_iff (f := stray), ← errors, List.filter_eq_nil_iff]
    simp only [decide_eq_true_eq, ne_eq]
  have noRemainder : (∀ child ∈ last, child.kind ≠ .error) ↔ neverClosed ts = [] := by
    generalize neverClosed ts = never at remainder
    cases remainder with
    | none => simp
    | error stop bare => simp
  rw [List.forall_mem_append, noStray, noRemainder, Matched]

/-- The concrete tree of a source that has a token.  Its errors are a node for each closing parenthesis without a
partner, and behind everything else one node for the opening ones that are never closed, if there are any: it begins
with the outermost of these, and the others are its bare parentheses.  All errors stand at the top level, nothing is
missing, and the lists are the pairs of partners, with atoms and lists between them.  So there is no error exactly if
every parenthesis has its partner. -/
theorem read_recovery {source : List UInt8} (some : tokens source ≠ []) :
    ∃ root front last, read source = .ok root ∧ root.children = front ++ last ∧
      front.filter (·.kind = .error) = (strays (tokens source)).map stray ∧
      Remainder (neverClosed (tokens source)) last ∧
      (∀ child ∈ root.children, ∀ node ∈ withinAll child.children, node.kind ≠ .error) ∧
      (∀ node ∈ root.within, node.kind ≠ .missing) ∧
      (∀ node ∈ root.within, node.kind = .list →
        ∃ first last, (first, last) ∈ pairs (tokens source) ∧ node.Encloses first last) ∧
      (∀ first last, (first, last) ∈ pairs (tokens source) → ∃ node ∈ root.within, node.Encloses first last) ∧
      ((∀ node ∈ root.within, node.kind ≠ .error) ↔ Matched (tokens source)) := by
  obtain ⟨front, last, parts, errors, remainder, each, complete⟩ := forest_recovery (tokens source)
  let root : Node := ⟨.root, 0, source.length, forest (tokens source)⟩
  -- a node of the tree is the root, an error at the top level, or regular
  have cases_within : ∀ node ∈ root.within, node = root ∨
      node ∈ root.children ∧ node.kind = .error ∨ node.Regular (pairs (tokens source)) := by
    intro node mem
    rcases mem_within.1 mem with same | ⟨child, isTop, below⟩
    · exact .inl same
    · obtain ⟨top, inside⟩ := each child isTop
      rcases mem_within.1 below with rfl | ⟨inner, among, below⟩
      · exact .inr (top.imp_left fun kind => ⟨isTop, kind⟩)
      · exact .inr (.inr (inside node (mem_withinAll.2 ⟨inner, among, below⟩)))
  have top_within : ∀ child ∈ root.children, child ∈ root.within := by
    intro child isTop
    exact mem_within.2 (.inr ⟨child, isTop, mem_within.2 (.inl rfl)⟩)
  refine ⟨root, front, last, read_of_tokens_ne_nil some, parts, errors, remainder, ?_, ?_, ?_, ?_, ?_⟩
  · intro child isTop node below
    exact ((each child isTop).2 node below).kind_ne rfl
  · intro node mem
    rcases cases_within node mem with rfl | ⟨-, kind⟩ | regular
    · nofun
    · rw [kind]
      nofun
    · exact regular.kind_ne rfl
  · intro node mem kind
    rcases cases_within node mem with rfl | ⟨-, other⟩ | regular
    · cases kind
    · rw [other] at kind
      cases kind
    · exact regular.enclosing kind
  · intro first last mem
    obtain ⟨node, among, encloses⟩ := complete first last mem
    obtain ⟨child, isTop, below⟩ := mem_withinAll.1 among
    exact ⟨node, mem_within.2 (.inr ⟨child, isTop, below⟩), encloses⟩
  · rw [← forall_ne_error_iff errors remainder, ← parts]
    constructor
    · intro sound child isTop
      exact sound child (top_within child isTop)
    · intro sound node mem
      rcases cases_within node mem with rfl | ⟨isTop, kind⟩ | regular
      · nofun
      · exact absurd kind (sound node isTop)
      · exact regular.kind_ne rfl

/-- The source `)(a(b)(c`. -/
theorem read_recovery_mixed :
    tokens [0x29, 0x28, 0x61, 0x28, 0x62, 0x29, 0x28, 0x63] ≠ [] ∧
      ∃ root front last, read [0x29, 0x28, 0x61, 0x28, 0x62, 0x29, 0x28, 0x63] = .ok root ∧
        root.children = front ++ last ∧ front.filter (·.kind = .error) = [stray ⟨0, .closing⟩] ∧
        Remainder [⟨1, .opening⟩, ⟨6, .opening⟩] last ∧
        ∃ node ∈ root.within, node.Encloses ⟨3, .opening⟩ ⟨5, .closing⟩ := by
  have some : tokens [0x29, 0x28, 0x61, 0x28, 0x62, 0x29, 0x28, 0x63] ≠ [] := by decide
  obtain ⟨root, front, last, isRoot, children, errors, remainder, -, -, -, complete, -⟩ := read_recovery some
  exact ⟨some, root, front, last, isRoot, children, errors, remainder, complete _ _ (by decide)⟩

end Node

end SExprLayout
