import SExprLayout.Proofs.Source.Shift

/-!
# The text of one node

An atom or a list stands for a balanced stretch of the tokens, however deep in a tree it is, inside an error too
(`Complete`).  The bytes that the node covers are scanned as this stretch, moved to the front, because no atom runs over
either end (`exists_tokens_text`).  So these bytes alone are read as the node, moved to the front
(`exists_forest_text`).
-/

namespace SExprLayout

/-! ### The tokens of a node -/

/-- The node stands for a balanced stretch of the tokens. -/
def Node.Complete (ts : List Token) (node : Node) : Prop :=
  ∃ before inner after, ts = before ++ inner ++ after ∧ Balanced inner [node]

theorem Node.Complete.around {ts : List Token} {node : Node} (h : node.Complete ts) (front back : List Token) :
    node.Complete (front ++ ts ++ back) := by
  obtain ⟨before, inner, after, rfl, balanced⟩ := h
  exact ⟨front ++ before, inner, after ++ back, by simp, balanced⟩

/-- The node is an atom or a list. -/
def Node.IsExpression (node : Node) : Prop := node.kind = .atom ∨ node.kind = .list

private theorem not_isExpression_leaf {token : Token} (h : token.lexeme = .opening ∨ token.lexeme = .closing) :
    ¬(Node.leaf token).IsExpression := by
  rcases h with lexeme | lexeme <;> rw [Node.IsExpression, Node.leaf, lexeme] <;> rintro (kind | kind) <;> cases kind

/-- Each atom and each list in the trees of balanced tokens stands for a stretch of these. -/
theorem Balanced.complete {ts : List Token} {nodes : List Node} (h : Balanced ts nodes) {node : Node}
    (isExpression : node.IsExpression) (mem : node ∈ Node.withinAll nodes) : node.Complete ts := by
  induction h with
  | nil => cases mem
  | @atom token bytes ts nodes lexeme _ ih =>
    rw [Node.withinAll, Node.within_leaf, List.singleton_append] at mem
    rcases List.mem_cons.1 mem with rfl | mem
    · exact ⟨[], [token], ts, rfl, .atom lexeme .nil⟩
    · simpa using (ih mem).around [token] []
  | @list first last inner ts items nodes opens inside closes _ ihInside ih =>
    rw [Node.withinAll, Node.within_eq, List.cons_append] at mem
    rcases List.mem_cons.1 mem with rfl | mem
    · exact ⟨[], first :: inner ++ [last], ts, by simp, .list opens inside closes .nil⟩
    rcases List.mem_append.1 mem with mem | mem
    · -- below the list itself: a parenthesis at an end, or inside one of the items
      rw [Node.spanning, Node.withinAll, Node.within_leaf, Node.withinAll_append, Node.withinAll,
        Node.within_leaf] at mem
      simp only [Node.withinAll, List.append_nil, List.mem_append, List.mem_singleton] at mem
      rcases mem with rfl | mem | rfl
      · exact absurd isExpression (not_isExpression_leaf (.inl opens))
      · simpa using (ihInside mem).around [first] (last :: ts)
      · exact absurd isExpression (not_isExpression_leaf (.inr closes))
    · simpa using (ih mem).around (first :: inner ++ [last]) []

theorem TopLevel.complete {ts : List Token} {nodes : List Node} (h : TopLevel ts nodes) {node : Node}
    (isExpression : node.IsExpression) (mem : node ∈ Node.withinAll nodes) : node.Complete ts := by
  induction h with
  | nil => cases mem
  | @node inner ts tree nodes complete _ ih =>
    rw [Node.withinAll] at mem
    rcases List.mem_append.1 mem with mem | mem
    · have here : node ∈ Node.withinAll [tree] := by rwa [Node.withinAll, Node.withinAll, List.append_nil]
      simpa using (complete.complete isExpression here).around [] ts
    · simpa using (ih mem).around inner []
  | @stray token ts nodes closes _ ih =>
    rw [Node.withinAll, Node.within_eq, List.cons_append] at mem
    rcases List.mem_cons.1 mem with rfl | mem
    · rcases isExpression with kind | kind <;> cases kind
    rcases List.mem_append.1 mem with mem | mem
    · rw [Node.spanning, Node.withinAll, Node.within_leaf, Node.withinAll, List.append_nil] at mem
      rw [List.mem_singleton.1 mem] at isExpression
      exact absurd isExpression (not_isExpression_leaf (.inr closes))
    · simpa using (ih mem).around [token] []

theorem Unclosed.complete {ts : List Token} {nodes : List Node} (h : Unclosed ts nodes) {node : Node}
    (isExpression : node.IsExpression) (mem : node ∈ Node.withinAll nodes) : node.Complete ts := by
  induction h with
  | nil => cases mem
  | @cons first inner ts items nodes opens inside _ ih =>
    rw [List.cons_append, Node.withinAll, Node.within_leaf, Node.withinAll_append] at mem
    simp only [List.mem_append, List.mem_singleton] at mem
    rcases mem with rfl | mem | mem
    · exact absurd isExpression (not_isExpression_leaf (.inl opens))
    · simpa using (inside.complete isExpression mem).around [first] ts
    · simpa using (ih mem).around (first :: inner) []

/-- Each atom and each list in the tree of any tokens stands for a stretch of these. -/
theorem Node.complete_of_mem_forest {ts : List Token} {node : Node} (isExpression : node.IsExpression)
    (mem : node ∈ withinAll (forest ts)) : node.Complete ts := by
  obtain ⟨before, after, nodes, rest, rfl, top, unclosed, forest⟩ := forest_cases ts
  rw [forest, withinAll_append] at mem
  rcases List.mem_append.1 mem with mem | mem
  · simpa using (top.complete isExpression mem).around [] after
  · cases rest with
    | nil => cases mem
    | cons opening items =>
      rw [recovered, withinAll, withinAll, List.append_nil, within_eq] at mem
      rcases List.mem_cons.1 mem with rfl | mem
      · rcases isExpression with kind | kind <;> cases kind
      · simpa using (unclosed.complete isExpression mem).around before []

/-! ### The bytes of a node -/

/-- A node that covers a part of a source whose ends no atom runs over holds the tokens of the part. -/
theorem Node.tokensInside_append {front part back : List UInt8} {node : Node} (before : Apart front part)
    (behind : Apart (front ++ part) back) (start : node.start = front.length)
    (stop : node.stop = (front ++ part).length) :
    node.tokensInside (front ++ part ++ back) = (tokens part).map (Token.shift front.length) := by
  have split : tokens (front ++ part ++ back) = tokens front ++ (tokens part).map (Token.shift front.length) ++
      (tokens back).map (Token.shift (front ++ part).length) := by
    rw [tokens_append behind, tokens_append before]
  refine tokensInside_eq split ?_ ?_ ?_
  · intro token mem
    have := stop_le_of_mem_tokens mem
    omega
  · intro token mem
    obtain ⟨unmoved, isToken, rfl⟩ := List.mem_map.1 mem
    have := stop_le_of_mem_tokens isToken
    rw [List.length_append] at stop
    simp only [Token.stop, Token.shift, Token.bytes] at this ⊢
    omega
  · intro token mem
    obtain ⟨token, -, rfl⟩ := List.mem_map.1 mem
    simp only [Token.shift]
    omega

/-- The bytes of an atom's token are scanned as the token, moved to the front. -/
private theorem exists_tokens_text_atom {source bytes : List UInt8} {token : Token} (mem : token ∈ tokens source)
    (lexeme : token.lexeme = .atom bytes) :
    ∃ front back, source = front ++ (Node.leaf token).text source ++ back ∧ token.start = front.length ∧
      [token] = (tokens ((Node.leaf token).text source)).map (Token.shift front.length) := by
  have stands := Token.standsIn_of_mem_scan mem
  obtain ⟨front, back, split, start⟩ := stands.placed
  obtain ⟨some, ordinary⟩ := stands.proper bytes lexeme
  obtain ⟨byte, rest, rfl⟩ := List.exists_cons_of_ne_nil some
  rw [Nat.zero_add] at start
  refine ⟨front, back, by rwa [Node.text_leaf mem], start, ?_⟩
  rw [Node.text_leaf mem, Token.bytes, lexeme, Lexeme.bytes, tokens, Token.scan_ordinary ordinary, List.map_singleton,
    Token.shift, Nat.zero_add, ← start, ← lexeme]

/-- The bytes from one parenthesis to another are scanned as the tokens between them, moved to the front. -/
private theorem exists_tokens_text_list {source : List UInt8} {node : Node}
    (bounds : 0 ≤ node.start ∧ node.start < node.stop ∧ node.stop ≤ source.length) {first last : Token}
    (isFirst : first ∈ tokens source) (opens : first.lexeme = .opening) (start : node.start = first.start)
    (isLast : last ∈ tokens source) (closes : last.lexeme = .closing) (stop : node.stop = last.stop) :
    ∃ front back, source = front ++ node.text source ++ back ∧ node.start = front.length ∧
      node.tokensInside source = (tokens (node.text source)).map (Token.shift front.length) := by
  obtain ⟨low, order, high⟩ := bounds
  obtain ⟨front, back, split, atStart, atStop⟩ := exists_append_slice low (Int.le_of_lt order) high
  obtain ⟨front', rest, split', start'⟩ := (Token.standsIn_of_mem_scan isFirst).placed
  obtain ⟨rest', back', split'', stop'⟩ := (Token.standsIn_of_mem_scan isLast).placed
  rw [Token.bytes, opens, Lexeme.bytes] at split'
  rw [Token.bytes, closes, Lexeme.bytes] at split''
  rw [Token.stop, Token.bytes, closes, Lexeme.bytes] at stop
  change source = front ++ node.text source ++ back at split
  change ((front ++ node.text source).length : Int) = node.stop at atStop
  refine ⟨front, back, split, atStart.symm, ?_⟩
  generalize node.text source = part at split atStop
  subst split
  -- the part begins with the first parenthesis and ends with the last
  have head : part ++ back = [0x28] ++ rest := by
    rw [List.append_assoc, List.append_assoc] at split'
    exact (List.append_inj split' (by omega)).2
  have tail : front ++ part = rest' ++ [0x29] := by
    refine (List.append_inj split'' ?_).1
    simp only [List.length_append, List.length_singleton] at atStop stop ⊢
    omega
  have isHead : part.head? = some 0x28 := by
    cases part with
    | nil =>
      rw [List.append_nil] at atStop
      omega
    | cons byte part =>
      rw [(List.cons.inj head).1]
      rfl
  have isTail : (front ++ part).getLast? = some 0x29 := by rw [tail, List.getLast?_concat]
  exact Node.tokensInside_append (apart_of_head? isHead (by decide)) (apart_of_getLast? isTail (by decide))
    atStart.symm atStop.symm

/-- The bytes of an atom or a list are scanned as the tokens that the node stands for, moved to the front. -/
theorem Node.exists_tokens_text {source : List UInt8} {node : Node} {before inner after : List Token}
    (split : tokens source = before ++ inner ++ after) (balanced : Balanced inner [node])
    (bounds : 0 ≤ node.start ∧ node.start < node.stop ∧ node.stop ≤ source.length) :
    ∃ front back, source = front ++ node.text source ++ back ∧ node.start = front.length ∧
      inner = (tokens (node.text source)).map (Token.shift front.length) := by
  have mem : ∀ token ∈ inner, token ∈ tokens source := by
    intro token mem
    simp [split, mem]
  have tight : node.Tight := balanced.tight node List.mem_cons_self
  have leaves : node.leaves = inner.map leaf := by simpa using balanced.flatMap_leaves
  have held : node.tokensInside source = inner := tight.tokensInside_eq split leaves
  cases balanced with
  | atom lexeme rest =>
    cases rest
    obtain ⟨front, back, e, start, scanned⟩ := exists_tokens_text_atom (mem _ List.mem_cons_self) lexeme
    exact ⟨front, back, e, congrArg Int.ofNat start, scanned⟩
  | @list first last _ _ items _ opens _ closes rest =>
    cases rest
    have isFirst : first ∈ tokens source := mem first (by simp)
    have isLast : last ∈ tokens source := mem last (by simp)
    have stop : (spanning .list (leaf first) (items ++ [leaf last])).stop = last.stop := by
      rw [spanning, List.getLast?_concat]
      rfl
    rw [← held]
    exact exists_tokens_text_list bounds isFirst opens rfl isLast closes stop

/-- The bytes of an atom or a list alone are read as the node, moved to the front. -/
theorem Node.exists_forest_text {source : List UInt8} {node : Node} (complete : node.Complete (tokens source))
    (bounds : 0 ≤ node.start ∧ node.start < node.stop ∧ node.stop ≤ source.length) :
    ∃ front back, source = front ++ node.text source ++ back ∧ node.start = front.length ∧
      forest (tokens (node.text source)) = [node.shift (-node.start)] := by
  obtain ⟨before, inner, after, split, balanced⟩ := complete
  obtain ⟨front, back, parts, start, scanned⟩ := exists_tokens_text split balanced bounds
  refine ⟨front, back, parts, start, ?_⟩
  have whole : (forest (tokens (node.text source))).map (shift front.length) = [node] := by
    rw [← forest_map_shift, ← scanned, balanced.forest_eq]
  obtain ⟨moved, alone, rfl⟩ := List.map_eq_singleton_iff.1 whole
  rw [alone, start, shift_shift, Int.add_right_neg, shift_zero]

end SExprLayout
