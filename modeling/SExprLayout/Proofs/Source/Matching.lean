import SExprLayout.Proofs.Source.Span

/-!
# Parentheses that are never closed

A closing parenthesis is the partner of the latest opening one that still waits for one.  The opening parentheses that
wait at the end of the tokens are never closed (`neverClosed`).  Balanced tokens leave nothing waiting
(`Balanced.foldl_waiting`), and what waits goes on waiting where nothing is closed (`Unclosed.mem_foldl_waiting`).

`forest_eq_cons` tells which tokens the first top-level node holds: it is a balanced stretch, a closing parenthesis
alone, or all there is.
-/

namespace SExprLayout

/-! ### Waiting for a partner -/

/-- The opening parentheses that wait for a partner, latest first, after one more token. -/
def waiting (before : List Token) (token : Token) : List Token :=
  match token.lexeme with
  | .opening => token :: before
  | .closing => before.tail
  | .atom _ => before

/-- The opening parentheses that are never closed, in their order. -/
def neverClosed (tokens : List Token) : List Token := (tokens.foldl waiting []).reverse

theorem waiting_opening {token : Token} (h : token.lexeme = .opening) (before : List Token) :
    waiting before token = token :: before := by
  rw [waiting, h]

theorem waiting_closing {token : Token} (h : token.lexeme = .closing) (before : List Token) :
    waiting before token = before.tail := by
  rw [waiting, h]

theorem waiting_atom {token : Token} {bytes : List UInt8} (h : token.lexeme = .atom bytes) (before : List Token) :
    waiting before token = before := by
  rw [waiting, h]

theorem mem_of_mem_foldl_waiting {tokens before : List Token} {token : Token}
    (h : token ∈ tokens.foldl waiting before) : token ∈ before ∨ token ∈ tokens ∧ token.lexeme = .opening := by
  induction tokens generalizing before with
  | nil => exact .inl h
  | cons next tokens ih =>
    rcases ih h with h | ⟨h, opens⟩
    · match lexeme : next.lexeme with
      | .opening =>
        rw [waiting_opening lexeme] at h
        rcases List.mem_cons.1 h with rfl | h
        · exact .inr ⟨List.mem_cons_self, lexeme⟩
        · exact .inl h
      | .closing =>
        rw [waiting_closing lexeme] at h
        exact .inl (List.mem_of_mem_tail h)
      | .atom bytes =>
        rw [waiting_atom lexeme] at h
        exact .inl h
    · exact .inr ⟨List.mem_cons_of_mem _ h, opens⟩

/-- Only an opening parenthesis is ever left over. -/
theorem lexeme_of_mem_neverClosed {tokens : List Token} {token : Token} (h : token ∈ neverClosed tokens) :
    token.lexeme = .opening := by
  rcases mem_of_mem_foldl_waiting (List.mem_reverse.1 h) with h | ⟨-, opens⟩
  · cases h
  · exact opens

/-- Balanced tokens leave waiting what waited before them. -/
theorem Balanced.foldl_waiting {tokens : List Token} {nodes : List Node} (h : Balanced tokens nodes)
    (before : List Token) : tokens.foldl waiting before = before := by
  induction h generalizing before with
  | nil => rfl
  | atom lexeme _ ih => rw [List.foldl_cons, waiting_atom lexeme, ih]
  | list opens _ closes _ ihInside ih =>
    rw [List.cons_append, List.foldl_cons, List.foldl_append, waiting_opening opens, ihInside, List.foldl_cons,
      waiting_closing closes, List.tail_cons, ih]

/-- Where nothing is closed, what waits goes on waiting. -/
theorem Unclosed.mem_foldl_waiting {tokens : List Token} {nodes : List Node} (h : Unclosed tokens nodes)
    {before : List Token} {token : Token} (mem : token ∈ before) : token ∈ tokens.foldl waiting before := by
  induction h generalizing before with
  | nil => exact mem
  | cons opens inside _ ih =>
    rw [List.foldl_append, List.foldl_cons, waiting_opening opens, inside.foldl_waiting]
    exact ih (List.mem_cons_of_mem _ mem)

/-! ### Inside and outside of a balanced stretch -/

/-- A parenthesis in a balanced stretch is closed. -/
theorem Balanced.not_mem_neverClosed {source : List UInt8} {before inner after : List Token} {nodes : List Node}
    (h : Balanced inner nodes) (split : tokens source = before ++ inner ++ after) {token : Token}
    (mem : token ∈ inner) : token ∉ neverClosed (tokens source) := by
  intro never
  have distinct : (before ++ inner ++ after).Nodup := split ▸ nodup_tokens source
  rw [List.nodup_append, List.nodup_append] at distinct
  obtain ⟨⟨-, -, early⟩, -, late⟩ := distinct
  -- what waits at the end stood before the stretch or behind it, and no token stands in two places
  rw [neverClosed, List.mem_reverse, split, List.foldl_append, List.foldl_append, h.foldl_waiting] at never
  rcases mem_of_mem_foldl_waiting never with never | ⟨never, -⟩
  · rcases mem_of_mem_foldl_waiting never with never | ⟨never, -⟩
    · cases never
    · exact early token never token mem rfl
  · exact late token (List.mem_append_right _ mem) token never rfl

/-- The parenthesis before an unclosed rest is never closed. -/
theorem Unclosed.mem_neverClosed {before after : List Token} {first : Token} {nodes : List Node}
    (h : Unclosed (first :: after) nodes) : first ∈ neverClosed (before ++ first :: after) := by
  cases h with
  | @cons first inner rest items nodes opens inside others =>
    rw [neverClosed, List.mem_reverse, List.foldl_append]
    have waits : first ∈ (first :: inner).foldl waiting (before.foldl waiting []) := by
      rw [List.foldl_cons, waiting_opening opens, inside.foldl_waiting]
      exact List.mem_cons_self
    have := others.mem_foldl_waiting waits
    rwa [← List.foldl_append] at this

/-! ### The first top-level node -/

theorem Balanced.flatMap_leaves {tokens : List Token} {nodes : List Node} (h : Balanced tokens nodes) :
    nodes.flatMap Node.leaves = tokens.map Node.leaf := by
  rw [← h.forest_eq, Node.leaves_forest]

theorem Unclosed.flatMap_leaves {tokens : List Token} {nodes : List Node} (h : Unclosed tokens nodes) :
    nodes.flatMap Node.leaves = tokens.map Node.leaf := by
  induction h with
  | nil => rfl
  | cons _ inside _ ih =>
    rw [List.flatMap_append, List.flatMap_cons, inside.flatMap_leaves, ih]
    simp

/-- What the first top-level node is made of: a balanced stretch, a closing parenthesis alone, or opening parentheses
without a partner and all that follows them.  The tokens of the node come first, then the later ones. -/
inductive First : List Token → List Token → Node → Prop
  | complete {inner later : List Token} {node : Node} (h : Balanced inner [node]) : First inner later node
  | stray {token : Token} {later : List Token} (closes : token.lexeme = .closing) :
      First [token] later (Node.spanning .error (Node.leaf token) [])
  | unclosed {tokens : List Token} {opening : Node} {items : List Node} (h : Unclosed tokens (opening :: items)) :
      First tokens [] (Node.spanning .error opening items)

theorem First.leaves_eq {tokens later : List Token} {node : Node} (h : First tokens later node) :
    node.leaves = tokens.map Node.leaf := by
  cases h with
  | complete h => simpa using h.flatMap_leaves
  | stray => rfl
  | unclosed h => rw [Node.leaves_spanning, ← List.flatMap_cons, h.flatMap_leaves]

/-- The tokens fall into those of the first node and later ones. -/
theorem forest_eq_cons {tokens : List Token} {first : Node} {rest : List Node}
    (h : Node.forest tokens = first :: rest) : ∃ inner later, tokens = inner ++ later ∧ First inner later first := by
  obtain ⟨before, after, nodes, never, rfl, top, unclosed, forest⟩ := forest_cases tokens
  rw [h] at forest
  cases top with
  | nil =>
    cases never with
    | nil => cases forest
    | cons opening items =>
      cases forest
      exact ⟨after, [], (List.append_nil _).symm, .unclosed unclosed⟩
  | @node inner ts node nodes complete _ =>
    cases forest
    exact ⟨inner, ts ++ after, List.append_assoc _ _ _, .complete complete⟩
  | @stray token ts nodes closes _ =>
    cases forest
    exact ⟨[token], ts ++ after, rfl, .stray closes⟩

/-- The tokens inside the first top-level node of a source are the first tokens of the source. -/
theorem tokensInside_first {source : List UInt8} {first : Node} {rest : List Node}
    (h : Node.forest (tokens source) = first :: rest) :
    ∃ later, tokens source = first.tokensInside source ++ later ∧ First (first.tokensInside source) later first := by
  obtain ⟨inner, later, split, isFirst⟩ := forest_eq_cons h
  have tight : first.Tight := Node.tight_of_mem_forest (h ▸ List.mem_cons_self)
  have inside : first.tokensInside source = inner :=
    tight.tokensInside_eq (show tokens source = [] ++ inner ++ later from split) isFirst.leaves_eq
  rw [inside]
  exact ⟨later, split, isFirst⟩

end SExprLayout
