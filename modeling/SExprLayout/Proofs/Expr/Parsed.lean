import SExprLayout.Expr.OfNode
import SExprLayout.Proofs.Expr.Closed
import SExprLayout.Proofs.Source.Span

/-!
# Expressions that are read

The nodes of balanced tokens are read as closed expressions with clean atoms (`closed_of_ofAll`).  Conversely, tokens
that spell a closed expression are balanced, and their node is read as that expression (`Closed.exists_node`).

So the first expression of a source is closed, or it was recovered: then it is the word `ERROR` with closed
expressions behind it, and without a nil of its own (`ofNode_first`).
-/

namespace SExprLayout

theorem map_eq_ok_iff {α β : Type} {f : α → β} {x : Except Error α} {b : β} :
    x.map f = .ok b ↔ ∃ a, x = .ok a ∧ b = f a := by
  cases x <;> simp [Except.map, eq_comm]

namespace Expr

/-! ### One node -/

theorem atomBetween_eq_ok_iff {source : List UInt8} {start stop : Int} {a : Atom} :
    atomBetween source start stop = .ok a ↔ Utf8.decode? (slice start stop source) = some a.text := by
  unfold atomBetween
  cases Utf8.decode? (slice start stop source) with
  | none => exact ⟨nofun, nofun⟩
  | some text => rw [Atom.ofText_eq_ok_iff, Option.some.injEq, eq_comm]

/-- The node of an atom is read as the atom that is encoded by the token's bytes. -/
theorem ofNode_leaf_eq_ok_iff {source bytes : List UInt8} {token : Token} {e : Expr} (mem : token ∈ tokens source)
    (lexeme : token.lexeme = .atom bytes) :
    ofNode source (Node.leaf token) = .ok e ↔ ∃ a : Atom, Utf8.encode a.text = bytes ∧ e = atom a := by
  have text : slice token.start token.stop source = bytes := by
    have := Node.text_leaf mem
    rwa [Token.bytes, lexeme] at this
  rw [Node.leaf, lexeme, Node.kindOf, ofNode, map_eq_ok_iff]
  simp only [atomBetween_eq_ok_iff, text, Utf8.decode?_eq_some_iff, @eq_comm _ bytes]

theorem ofNode_leaf_opening {token : Token} (h : token.lexeme = .opening) (source : List UInt8) :
    ofNode source (Node.leaf token) = .error (.unknownKind .opening) := by
  rw [Node.leaf, h]
  rfl

theorem ofNode_leaf_closing {token : Token} (h : token.lexeme = .closing) (source : List UInt8) :
    ofNode source (Node.leaf token) = .ok nil := by
  rw [Node.leaf, h]
  rfl

/-! ### Nodes in a row -/

theorem ofAll_cons_eq_ok_iff {source : List UInt8} {node : Node} {nodes : List Node} {es : List Expr} :
    ofAll source (node :: nodes) = .ok es ↔
      ∃ first rest, ofNode source node = .ok first ∧ ofAll source nodes = .ok rest ∧ es = first :: rest := by
  rw [ofAll]
  cases ofNode source node with
  | error _ => simp [bind, Except.bind]
  | ok first =>
    cases ofAll source nodes with
    | error _ => simp [bind, Except.bind]
    | ok rest => simp [bind, Except.bind, pure, Except.pure, eq_comm]

theorem ofAll_append_eq_ok_iff {source : List UInt8} {before after : List Node} {es : List Expr} :
    ofAll source (before ++ after) = .ok es ↔
      ∃ ds fs, ofAll source before = .ok ds ∧ ofAll source after = .ok fs ∧ es = ds ++ fs := by
  induction before generalizing es with
  | nil => simp [ofAll]
  | cons node before ih =>
    rw [List.cons_append, ofAll_cons_eq_ok_iff]
    simp only [ih, ofAll_cons_eq_ok_iff]
    grind

/-- The node of a closing parenthesis behind other nodes adds a nil. -/
theorem ofAll_concat_closing {last : Token} (closes : last.lexeme = .closing) (source : List UInt8)
    (items : List Node) :
    ofAll source (items ++ [Node.leaf last]) = (ofAll source items).map fun es => es ++ [nil] := by
  induction items with
  | nil =>
    rw [List.nil_append, ofAll, ofAll, ofNode_leaf_closing closes]
    rfl
  | cons node items ih =>
    rw [List.cons_append, ofAll, ih, ofAll]
    cases ofNode source node with
    | error _ => rfl
    | ok first => cases ofAll source items <;> rfl

/-- A list or a recovered part is read as its nodes but the first, behind its heading. -/
theorem ofNode_spanning {kind : Kind} (h : kind = .list ∨ kind.isRecovery = true) (source : List UInt8) (first : Node)
    (rest : List Node) :
    ofNode source (Node.spanning kind first rest) =
      (ofAll source rest).map fun es => list (heading kind ++ es) := by
  rw [Node.spanning, ofNode_of_inner _ _ _ h, List.tail_cons]

theorem ofNode_spanning_eq_ok_iff {source : List UInt8} {kind : Kind} {first : Node} {rest : List Node} {e : Expr}
    (h : kind = .list ∨ kind.isRecovery = true) :
    ofNode source (Node.spanning kind first rest) = .ok e ↔
      ∃ es, ofAll source rest = .ok es ∧ e = list (heading kind ++ es) := by
  rw [ofNode_spanning h, map_eq_ok_iff]

/-- A node from one parenthesis to the other is read as the list of what is between, and nil. -/
theorem ofNode_closed {last : Token} (closes : last.lexeme = .closing) (source : List UInt8) (first : Node)
    (items : List Node) :
    ofNode source (Node.spanning .list first (items ++ [Node.leaf last])) =
      (ofAll source items).map fun es => list (es ++ [nil]) := by
  rw [ofNode_spanning (.inl rfl), ofAll_concat_closing closes]
  cases ofAll source items <;> rfl

theorem ofNode_closed_eq_ok_iff {source : List UInt8} {first : Node} {last : Token} {items : List Node} {e : Expr}
    (closes : last.lexeme = .closing) :
    ofNode source (Node.spanning .list first (items ++ [Node.leaf last])) = .ok e ↔
      ∃ es, ofAll source items = .ok es ∧ e = list (es ++ [nil]) := by
  rw [ofNode_closed closes, map_eq_ok_iff]

/-! ### Balanced tokens are read as closed expressions -/

/-- What balanced tokens of the source are read as is closed, and its atoms are clean. -/
theorem closed_of_ofAll {source : List UInt8} {ts : List Token} {nodes : List Node} (h : Balanced ts nodes)
    (mem : ∀ token ∈ ts, token ∈ tokens source) {es : List Expr} (ok : ofAll source nodes = .ok es) :
    ∀ e ∈ es, e.Closed ∧ e.Clean := by
  induction h generalizing es with
  | nil =>
    cases ok
    nofun
  | @atom token bytes ts nodes lexeme _ ih =>
    rw [List.forall_mem_cons] at mem
    obtain ⟨first, rest, made, others, rfl⟩ := ofAll_cons_eq_ok_iff.1 ok
    obtain ⟨a, rfl, rfl⟩ := (ofNode_leaf_eq_ok_iff mem.1 lexeme).1 made
    rw [List.forall_mem_cons]
    refine ⟨⟨.atom a, ?_⟩, ih mem.2 others⟩
    have ordinary := ((Token.standsIn_of_mem_scan mem.1).proper _ lexeme).2
    rw [Clean, atoms, List.forall_mem_singleton]
    exact Atom.clean_iff.2 ordinary
  | @list first last inner ts items nodes opens _ closes _ ihInside ih =>
    simp only [List.cons_append, List.forall_mem_cons, List.forall_mem_append] at mem
    obtain ⟨e, rest, made, others, rfl⟩ := ofAll_cons_eq_ok_iff.1 ok
    obtain ⟨es, inside, rfl⟩ := (ofNode_closed_eq_ok_iff closes).1 made
    have between := ihInside mem.2.1 inside
    rw [List.forall_mem_cons]
    refine ⟨⟨.list fun child h => (between child h).1, ?_⟩, ih mem.2.2.2 others⟩
    rw [clean_list_iff, List.forall_mem_append]
    exact ⟨fun child h => (between child h).2, by simp [Clean, atoms]⟩

/-! ### Tokens that spell a closed expression -/

private theorem exists_nodes {source : List UInt8} {children : List Expr}
    (each : ∀ child ∈ children, ∀ ts : List Token, (∀ token ∈ ts, token ∈ tokens source) →
      ts.map Token.lexeme = child.lexemes → ∃ node, Balanced ts [node] ∧ ofNode source node = .ok child)
    {ts : List Token} (mem : ∀ token ∈ ts, token ∈ tokens source)
    (spelling : ts.map Token.lexeme = lexemesAll children) :
    ∃ nodes, Balanced ts nodes ∧ ofAll source nodes = .ok children := by
  induction children generalizing ts with
  | nil =>
    obtain rfl := List.map_eq_nil_iff.1 spelling
    exact ⟨[], .nil, rfl⟩
  | cons child children ih =>
    obtain ⟨before, after, rfl, first, rest⟩ := List.map_eq_append_iff.1 spelling
    rw [List.forall_mem_append] at mem
    rw [List.forall_mem_cons] at each
    obtain ⟨node, balanced, made⟩ := each.1 before mem.1 first
    obtain ⟨nodes, balanced', made'⟩ := ih each.2 mem.2 rest
    exact ⟨node :: nodes, balanced.append balanced', ofAll_cons_eq_ok_iff.2 ⟨_, _, made, made', rfl⟩⟩

/-- Tokens of the source that spell a closed expression are balanced, and their node is read as the expression. -/
theorem Closed.exists_node {e : Expr} (h : e.Closed) {source : List UInt8} {ts : List Token}
    (mem : ∀ token ∈ ts, token ∈ tokens source) (spelling : ts.map Token.lexeme = e.lexemes) :
    ∃ node, Balanced ts [node] ∧ ofNode source node = .ok e := by
  induction h generalizing ts with
  | atom a =>
    obtain ⟨token, _, rfl, lexeme, rest⟩ := List.map_eq_cons_iff.1 spelling
    obtain rfl := List.map_eq_nil_iff.1 rest
    have made := (ofNode_leaf_eq_ok_iff (mem token List.mem_cons_self) lexeme).2 ⟨a, rfl, rfl⟩
    exact ⟨_, .atom lexeme .nil, made⟩
  | @list children _ ih =>
    rw [lexemes, lexemesAll_append, show lexemesAll [nil] = [] from rfl, List.append_nil] at spelling
    obtain ⟨first, _, rfl, opens, rest⟩ := List.map_eq_cons_iff.1 spelling
    obtain ⟨inner, _, rfl, inside, ending⟩ := List.map_eq_append_iff.1 rest
    obtain ⟨last, _, rfl, closes, ending⟩ := List.map_eq_cons_iff.1 ending
    obtain rfl := List.map_eq_nil_iff.1 ending
    simp only [List.forall_mem_cons, List.forall_mem_append] at mem
    obtain ⟨nodes, balanced, made⟩ := exists_nodes (fun child h ts => ih child h) mem.2.1 inside
    exact ⟨_, .list opens balanced closes .nil, (ofNode_closed_eq_ok_iff closes).2 ⟨_, made, rfl⟩⟩

/-- Tokens of the source that spell closed expressions in a row are balanced, and their nodes are read as these. -/
theorem exists_nodes_of_closed {children : List Expr} (closed : ∀ child ∈ children, child.Closed)
    {source : List UInt8} {ts : List Token} (mem : ∀ token ∈ ts, token ∈ tokens source)
    (spelling : ts.map Token.lexeme = lexemesAll children) :
    ∃ nodes, Balanced ts nodes ∧ ofAll source nodes = .ok children :=
  exists_nodes (fun child h _ => (closed child h).exists_node) mem spelling

/-! ### The first expression of a source -/

/-- Parsing takes the first top-level node, and there is none only if there is no token. -/
theorem parse_eq (source : List UInt8) :
    parse source = match Node.forest (tokens source) with
      | [] => .error .nothingToParse
      | first :: _ => ofNode source first := by
  unfold parse Node.read
  cases tokens source <;> rfl

theorem parse_eq_ok_iff {source : List UInt8} {e : Expr} :
    parse source = .ok e ↔
      ∃ first rest, Node.forest (tokens source) = first :: rest ∧ ofNode source first = .ok e := by
  rw [parse_eq]
  cases Node.forest (tokens source) <;> simp

/-- Of parentheses that are never closed only the first is not read, so where the nodes behind it are, it is the only
one. -/
theorem balanced_of_unclosed {source : List UInt8} {ts : List Token} {opening : Node} {items : List Node}
    (h : Unclosed ts (opening :: items)) {es : List Expr} (ok : ofAll source items = .ok es) :
    Balanced ts.tail items := by
  cases h with
  | @cons first inner ts items nodes _ inside others =>
    obtain ⟨ds, fs, -, made, -⟩ := ofAll_append_eq_ok_iff.1 ok
    cases others with
    | nil => rwa [List.append_nil, List.tail_cons, List.append_eq, List.append_nil]
    | cons opens =>
      obtain ⟨e, _, bare, -⟩ := ofAll_cons_eq_ok_iff.1 made
      rw [ofNode_leaf_opening opens] at bare
      cases bare

private theorem clean_recovered {es : List Expr} (h : ∀ e ∈ es, e.Clean) : (list (heading .error ++ es)).Clean := by
  rw [clean_list_iff, List.forall_mem_append]
  exact ⟨by decide +kernel, h⟩

/-- The first expression of a source has clean atoms, and it is closed unless its node is an error: then it is a
heading with closed expressions behind it. -/
theorem ofNode_first {source : List UInt8} {first : Node} {rest : List Node} {e : Expr}
    (h : Node.forest (tokens source) = first :: rest) (made : ofNode source first = .ok e) :
    e.Clean ∧ (first.kind ≠ .error ∧ e.Closed ∨
      first.kind = .error ∧ ∃ es, (∀ child ∈ es, child.Closed) ∧ e = list (heading .error ++ es)) := by
  obtain ⟨before, after, nodes, never, split, top, unclosed, forest⟩ := forest_cases (tokens source)
  rw [h] at forest
  have mem : (∀ token ∈ before, token ∈ tokens source) ∧ ∀ token ∈ after, token ∈ tokens source := by
    rw [split, ← List.forall_mem_append]
    exact fun _ h => h
  cases top with
  | nil =>
    -- nothing at the top level: the first node is the error node of what is never closed
    cases never with
    | nil => cases forest
    | cons opening others =>
      cases forest
      obtain ⟨es, others, rfl⟩ := (ofNode_spanning_eq_ok_iff (.inr rfl)).1 made
      have behind : ∀ token ∈ after.tail, token ∈ tokens source :=
        fun token h => mem.2 token (List.mem_of_mem_tail h)
      have closed := closed_of_ofAll (balanced_of_unclosed unclosed others) behind others
      exact ⟨clean_recovered fun e h => (closed e h).2, .inr ⟨rfl, es, fun e h => (closed e h).1, rfl⟩⟩
  | @node inner ts node nodes complete _ =>
    cases forest
    have single : ofAll source [first] = .ok [e] := ofAll_cons_eq_ok_iff.2 ⟨e, [], made, rfl, rfl⟩
    have closed := closed_of_ofAll complete (List.forall_mem_append.1 mem.1).1 single e List.mem_cons_self
    exact ⟨closed.2, .inl ⟨complete.kind_ne_error first List.mem_cons_self, closed.1⟩⟩
  | stray =>
    cases forest
    obtain ⟨es, none, rfl⟩ := (ofNode_spanning_eq_ok_iff (.inr rfl)).1 made
    cases none
    exact ⟨clean_recovered nofun, .inr ⟨rfl, [], nofun, rfl⟩⟩

/-- What is read from a source has clean atoms, and it is closed or a list of closed expressions that lacks its nil. -/
theorem shape_of_parse {source : List UInt8} {e : Expr} (h : parse source = .ok e) :
    e.Clean ∧ (e.Closed ∨ ∃ children, children ≠ [] ∧ (∀ child ∈ children, child.Closed) ∧ e = list children) := by
  obtain ⟨first, rest, forest, made⟩ := parse_eq_ok_iff.1 h
  obtain ⟨clean, ⟨-, closed⟩ | ⟨-, es, closed, rfl⟩⟩ := ofNode_first forest made
  · exact ⟨clean, .inl closed⟩
  · refine ⟨clean, .inr ⟨heading .error ++ es, List.cons_ne_nil _ _, ?_, rfl⟩⟩
    exact List.forall_mem_append.2 ⟨List.forall_mem_singleton.2 (.atom _), closed⟩

end Expr

/-- A source whose tokens make nodes has these as its concrete tree. -/
theorem Node.read_eq_ok {source : List UInt8} {first : Node} {rest : List Node}
    (h : Node.forest (tokens source) = first :: rest) :
    Node.read source = .ok ⟨.root, 0, source.length, first :: rest⟩ := by
  have some : tokens source ≠ [] := by
    intro none
    rw [none] at h
    cases h
  rw [read_of_tokens_ne_nil some, h]

end SExprLayout
