import SExprLayout.Proofs.Expr.Parsed
import SExprLayout.Proofs.Source.Matching

/-!
# Faults

A node that is turned into an expression is looked at together with the nodes below it, except for the first child of
each list or recovered part (`visible`).  A node can be at fault on its own account (`Node.fault`), and turning fails
with the first fault among the nodes that are looked at, if there is any (`ofNode_eq_error_iff`).

In terms of the source, a token is at fault if it is an atom that is not UTF-8, or an opening parenthesis that is never
closed (`Token.fault`).  Main statement: parsing fails with the first fault among the tokens of the first top-level
node, without the token at the front of a list or an error, and it succeeds if there is none (`parse_outcome`).
-/

namespace SExprLayout

namespace Node

/-! ### The nodes that are looked at -/

mutual

/-- The nodes that are looked at, each before the nodes below it. -/
def visible : Node → List Node
  | ⟨kind, start, stop, children⟩ =>
    ⟨kind, start, stop, children⟩ :: if kind = .list ∨ kind.isRecovery = true then visibleInner children else []

/-- The nodes that are looked at below a list or a recovered part. -/
def visibleInner : List Node → List Node
  | [] => []
  | _ :: rest => visibleAll rest

/-- The nodes that are looked at in a row of nodes. -/
def visibleAll : List Node → List Node
  | [] => []
  | node :: nodes => node.visible ++ visibleAll nodes

end

theorem visibleAll_append (before after : List Node) :
    visibleAll (before ++ after) = visibleAll before ++ visibleAll after := by
  induction before with
  | nil => rfl
  | cons node before ih => rw [List.cons_append, visibleAll, visibleAll, ih, List.append_assoc]

theorem visible_leaf (token : Token) : (leaf token).visible = [leaf token] := by
  rcases token with ⟨start, _ | _ | bytes⟩ <;> rfl

/-- What is wrong with a node itself, whatever is below it. -/
def fault (source : List UInt8) (node : Node) : Option Error :=
  match node.kind with
  | .list | .error | .missing | .closing => none
  | .atom =>
    if ¬Utf8.IsValid (node.text source) then some (.notUtf8 node.start node.stop)
    else if node.text source = [] then some .emptyAtom
    else none
  | kind => some (.unknownKind kind)

/-- A list or a recovered part is not at fault itself. -/
theorem findSome?_visible_of_inner {source : List UInt8} {kind : Kind} (start stop : Int) (children : List Node)
    (h : kind = .list ∨ kind.isRecovery = true) :
    (visible ⟨kind, start, stop, children⟩).findSome? (fault source) =
      (visibleInner children).findSome? (fault source) := by
  have fine : fault source ⟨kind, start, stop, children⟩ = none := by
    cases kind with
    | list => rfl
    | error => rfl
    | missing => rfl
    | _ => simp [Kind.isRecovery] at h
  rw [visible, if_pos h, List.findSome?_cons, fine]

end Node

namespace Expr

private theorem atomBetween_eq_error_iff {source : List UInt8} {start stop : Int} (children : List Node)
    {error : Error} :
    atomBetween source start stop = .error error ↔ Node.fault source ⟨.atom, start, stop, children⟩ = some error := by
  unfold atomBetween Node.fault Node.text
  dsimp only
  cases decoded : Utf8.decode? (slice start stop source) with
  | none =>
    have invalid : ¬Utf8.IsValid (slice start stop source) := by
      rintro ⟨text, h⟩
      rw [decoded] at h
      cases h
    simp [invalid]
  | some text =>
    have valid : Utf8.IsValid (slice start stop source) := ⟨text, decoded⟩
    have bytes := Utf8.decode?_eq_some_iff.1 decoded
    simp only [valid, not_true_eq_false, if_false]
    by_cases empty : text = ""
    · simp [Atom.ofText, bytes, empty]
    · simp [Atom.ofText, bytes, empty]

private theorem map_eq_error_iff {α β : Type} {f : α → β} {x : Except Error α} {error : Error} :
    x.map f = .error error ↔ x = .error error := by
  cases x <;> simp [Except.map]

private theorem ofAll_cons_eq_error_iff {source : List UInt8} {node : Node} {nodes : List Node} {error : Error} :
    ofAll source (node :: nodes) = .error error ↔
      ofNode source node = .error error ∨
        (∀ other, ofNode source node ≠ .error other) ∧ ofAll source nodes = .error error := by
  rw [ofAll]
  cases ofNode source node with
  | error _ => simp [bind, Except.bind]
  | ok first => cases ofAll source nodes <;> simp [bind, Except.bind, pure, Except.pure]

mutual

/-- Turning a node fails with the first fault among the nodes that are looked at, and only then. -/
theorem ofNode_eq_error_iff {source : List UInt8} (node : Node) {error : Error} :
    ofNode source node = .error error ↔ node.visible.findSome? (Node.fault source) = some error := by
  match node with
  | ⟨.atom, start, stop, children⟩ =>
    rw [ofNode, map_eq_error_iff, atomBetween_eq_error_iff children]
    simp [Node.visible, Kind.isRecovery]
  | ⟨.list, start, stop, children⟩ =>
    rw [ofNode, map_eq_error_iff, ofInner_eq_error_iff children, Node.findSome?_visible_of_inner _ _ _ (.inl rfl)]
  | ⟨.error, start, stop, children⟩ =>
    rw [ofNode, map_eq_error_iff, ofInner_eq_error_iff children, Node.findSome?_visible_of_inner _ _ _ (.inr rfl)]
  | ⟨.missing, start, stop, children⟩ =>
    rw [ofNode, map_eq_error_iff, ofInner_eq_error_iff children, Node.findSome?_visible_of_inner _ _ _ (.inr rfl)]
  | ⟨.closing, _, _, _⟩ => simp [ofNode, Node.visible, Kind.isRecovery, Node.fault]
  | ⟨.root, _, _, _⟩ => simp [ofNode, Node.visible, Kind.isRecovery, Node.fault]
  | ⟨.opening, _, _, _⟩ => simp [ofNode, Node.visible, Kind.isRecovery, Node.fault]
  | ⟨.other _ _, _, _, _⟩ => simp [ofNode, Node.visible, Kind.isRecovery, Node.fault]

theorem ofInner_eq_error_iff {source : List UInt8} (children : List Node) {error : Error} :
    ofInner source children = .error error ↔
      (Node.visibleInner children).findSome? (Node.fault source) = some error := by
  match children with
  | [] => simp [ofInner, Node.visibleInner]
  | _ :: rest => exact ofAll_eq_error_iff rest

theorem ofAll_eq_error_iff {source : List UInt8} (nodes : List Node) {error : Error} :
    ofAll source nodes = .error error ↔ (Node.visibleAll nodes).findSome? (Node.fault source) = some error := by
  match nodes with
  | [] => simp [ofAll, Node.visibleAll]
  | node :: rest =>
    have fine : (∀ other, ofNode source node ≠ .error other) ↔
        node.visible.findSome? (Node.fault source) = none := by
      rw [Option.eq_none_iff_forall_ne_some]
      exact forall_congr' fun other => not_congr (ofNode_eq_error_iff node)
    rw [ofAll_cons_eq_error_iff, fine, ofNode_eq_error_iff node, ofAll_eq_error_iff rest, Node.visibleAll,
      List.findSome?_append, Option.or_eq_some_iff]

end

end Expr

/-! ### Faults of tokens -/

/-- What is wrong with a token of a source: an atom may not be UTF-8, and an opening parenthesis may never be closed. -/
def Token.fault (source : List UInt8) (token : Token) : Option Error :=
  match token.lexeme with
  | .atom _ =>
    if ¬Utf8.IsValid (slice token.start token.stop source) then some (.notUtf8 token.start token.stop) else none
  | .opening => if token ∈ neverClosed (tokens source) then some (.unknownKind .opening) else none
  | .closing => none

/-- A token that stands as a leaf of its own is at fault as the leaf is, since an opening parenthesis does so only if it
is never closed. -/
theorem Node.fault_leaf {source : List UInt8} {token : Token} (mem : token ∈ tokens source)
    (bare : token.lexeme = .opening → token ∈ neverClosed (tokens source)) :
    (leaf token).fault source = token.fault source := by
  match lexeme : token.lexeme with
  | .opening =>
    rw [fault, Token.fault, leaf, lexeme]
    exact (if_pos (bare lexeme)).symm
  | .closing =>
    rw [fault, Token.fault, leaf, lexeme]
    rfl
  | .atom bytes =>
    have some : (leaf token).text source ≠ [] := by
      rw [text_leaf mem, Token.bytes, lexeme]
      exact ((Token.standsIn_of_mem_scan mem).proper bytes lexeme).1
    rw [fault, if_neg some, Token.fault, lexeme, leaf, lexeme]
    rfl

/-- A closed parenthesis is not at fault. -/
theorem Token.fault_of_closed {source : List UInt8} {token : Token} (closed : token ∉ neverClosed (tokens source))
    (parenthesis : token.lexeme = .opening ∨ token.lexeme = .closing) : token.fault source = none := by
  rcases parenthesis with lexeme | lexeme
  · rw [fault, lexeme]
    exact if_neg closed
  · rw [fault, lexeme]

/-- The nodes of balanced tokens are at fault where the tokens are, if all parentheses are closed. -/
theorem Balanced.findSome?_fault {source : List UInt8} {ts : List Token} {nodes : List Node} (h : Balanced ts nodes)
    (mem : ∀ token ∈ ts, token ∈ tokens source) (closed : ∀ token ∈ ts, token ∉ neverClosed (tokens source)) :
    (Node.visibleAll nodes).findSome? (Node.fault source) = ts.findSome? (Token.fault source) := by
  induction h with
  | nil => rfl
  | @atom token bytes ts nodes lexeme _ ih =>
    rw [List.forall_mem_cons] at mem closed
    have bare : token.lexeme = .opening → token ∈ neverClosed (tokens source) := by
      rw [lexeme]
      nofun
    rw [Node.visibleAll, Node.visible_leaf, List.singleton_append, List.findSome?_cons, List.findSome?_cons,
      Node.fault_leaf mem.1 bare, ih mem.2 closed.2]
  | @list first last inner ts items nodes opens _ closes _ ihInside ih =>
    simp only [List.cons_append, List.forall_mem_cons, List.forall_mem_append] at mem closed
    have firstFine := Token.fault_of_closed closed.1 (.inl opens)
    have lastFine := Token.fault_of_closed closed.2.2.1 (.inr closes)
    have lastLeaf : (Node.leaf last).fault source = none := by
      rw [Node.fault_leaf mem.2.2.1 (by rw [closes]; nofun), lastFine]
    have inside : (Node.spanning .list (Node.leaf first) (items ++ [Node.leaf last])).visible.findSome?
        (Node.fault source) = inner.findSome? (Token.fault source) := by
      rw [Node.spanning, Node.findSome?_visible_of_inner _ _ _ (.inl rfl), Node.visibleInner, Node.visibleAll_append,
        Node.visibleAll, Node.visible_leaf, Node.visibleAll, List.findSome?_append, ihInside mem.2.1 closed.2.1]
      simp [lastLeaf]
    rw [Node.visibleAll, List.findSome?_append, inside, ih mem.2.2.2 closed.2.2.2]
    simp [List.findSome?_append, firstFine, lastFine]

/-- The first parenthesis of an unclosed rest is at fault. -/
theorem Unclosed.findSome?_fault {source : List UInt8} {ts : List Token} {nodes : List Node} (h : Unclosed ts nodes)
    (mem : ∀ token ∈ ts, token ∈ tokens source) (never : ∀ token ∈ ts.head?, token ∈ neverClosed (tokens source)) :
    (Node.visibleAll nodes).findSome? (Node.fault source) = ts.findSome? (Token.fault source) := by
  cases h with
  | nil => rfl
  | @cons first inner ts items nodes opens _ _ =>
    have isNever : first ∈ neverClosed (tokens source) := never first rfl
    have atFault : first.fault source = some (.unknownKind .opening) := by
      rw [Token.fault, opens]
      exact if_pos isNever
    have leafAtFault : (Node.leaf first).fault source = some (.unknownKind .opening) := by
      rw [Node.fault_leaf (mem first List.mem_cons_self) fun _ => isNever, atFault]
    rw [List.cons_append, List.cons_append, Node.visibleAll, Node.visible_leaf, List.singleton_append,
      List.findSome?_cons, leafAtFault, List.findSome?_cons, atFault]

/-- Behind the first parenthesis, where nothing is wrong up to the next one that is never closed, the nodes are at
fault where the tokens are. -/
theorem Unclosed.findSome?_fault_tail {source : List UInt8} {opening : Node} {items : List Node}
    (h : Unclosed (tokens source) (opening :: items)) :
    (Node.visibleAll items).findSome? (Node.fault source) =
      (tokens source).tail.findSome? (Token.fault source) := by
  generalize split : tokens source = ts at h
  cases h with
  | @cons first inner ts nodes nodes' opens inside others =>
    -- up to the next parenthesis that is never closed the row is balanced, and there the search ends
    have mem : ∀ token ∈ first :: inner ++ ts, token ∈ tokens source := fun token mem => split ▸ mem
    simp only [List.cons_append, List.forall_mem_cons, List.forall_mem_append] at mem
    have closed : ∀ token ∈ inner, token ∉ neverClosed (tokens source) := fun token =>
      inside.not_mem_neverClosed (show tokens source = [first] ++ inner ++ ts from split)
    have never : ∀ token ∈ ts.head?, token ∈ neverClosed (tokens source) := by
      cases ts with
      | nil => nofun
      | cons token ts =>
        rintro _ ⟨⟩
        rw [split]
        exact others.mem_neverClosed
    rw [List.append_eq, Node.visibleAll_append, List.findSome?_append, inside.findSome?_fault mem.2.1 closed,
      others.findSome?_fault mem.2.2 never, List.cons_append, List.tail_cons, List.findSome?_append]

/-! ### The first top-level node -/

/-- The tokens inside a node, without the one at the front of a list or an error. -/
def Node.contents (source : List UInt8) (node : Node) : List Token :=
  if node.kind = .list ∨ node.kind = .error then (node.tokensInside source).tail else node.tokensInside source

theorem Node.mem_tokens_of_mem_contents {source : List UInt8} {node : Node} {token : Token}
    (h : token ∈ node.contents source) : token ∈ tokens source := by
  unfold contents at h
  split at h
  · exact (List.mem_filter.1 (List.mem_of_mem_tail h)).1
  · exact (List.mem_filter.1 h).1

/-- The first top-level node is at fault where its contents are. -/
theorem Node.findSome?_fault_first {source : List UInt8} {first : Node} {rest : List Node}
    (h : forest (tokens source) = first :: rest) :
    first.visible.findSome? (Node.fault source) = (first.contents source).findSome? (Token.fault source) := by
  obtain ⟨later, split, isFirst⟩ := tokensInside_first h
  have mem : ∀ token ∈ first.tokensInside source, token ∈ tokens source := by
    intro token inside
    rw [split]
    exact List.mem_append_left _ inside
  rw [contents]
  generalize first.tokensInside source = ts at split isFirst mem
  cases isFirst with
  | complete balanced =>
    have closed : ∀ token ∈ ts, token ∉ neverClosed (tokens source) := fun token =>
      balanced.not_mem_neverClosed (show tokens source = [] ++ ts ++ later from split)
    have row := balanced.findSome?_fault mem closed
    rw [visibleAll, visibleAll, List.append_nil] at row
    rw [row]
    cases balanced with
    | atom lexeme rest =>
      cases rest
      rw [leaf, lexeme]
      rfl
    | list opens _ _ rest =>
      have fine := Token.fault_of_closed (closed _ List.mem_cons_self) (.inl opens)
      rw [if_pos (.inl rfl), List.cons_append, List.findSome?_cons, fine, List.tail_cons]
  | stray closes =>
    rw [spanning, findSome?_visible_of_inner _ _ _ (.inr rfl)]
    rfl
  | unclosed unclosed =>
    rw [List.append_nil] at split
    subst split
    rw [spanning, findSome?_visible_of_inner _ _ _ (.inr rfl), visibleInner, unclosed.findSome?_fault_tail,
      if_pos (.inr rfl)]

/-- An atom that is not UTF-8 is at fault with its own positions, and a parenthesis that is never closed as such. -/
theorem Token.fault_eq_some_iff {source : List UInt8} {token : Token} {error : Error} :
    token.fault source = some error ↔
      (∃ bytes, token.lexeme = .atom bytes) ∧ ¬Utf8.IsValid (slice token.start token.stop source) ∧
          error = .notUtf8 token.start token.stop ∨
        token ∈ neverClosed (tokens source) ∧ error = .unknownKind .opening := by
  have opens : token ∈ neverClosed (tokens source) → token.lexeme = .opening := lexeme_of_mem_neverClosed
  unfold fault
  split
  · rename_i bytes lexeme
    have : token ∉ neverClosed (tokens source) := fun never => by simp [opens never] at lexeme
    simp [lexeme, this, eq_comm]
  · rename_i lexeme
    simp [lexeme, eq_comm]
  · rename_i lexeme
    have : token ∉ neverClosed (tokens source) := fun never => by simp [opens never] at lexeme
    simp [lexeme, this]

/-- Balanced tokens whose parentheses are all closed can fail to be read only because one of their atoms is not
UTF-8. -/
theorem Balanced.exists_notUtf8 {source : List UInt8} {ts : List Token} {nodes : List Node} (h : Balanced ts nodes)
    (mem : ∀ token ∈ ts, token ∈ tokens source) (closed : ∀ token ∈ ts, token ∉ neverClosed (tokens source))
    {error : Error} (failed : Expr.ofAll source nodes = .error error) :
    ∃ token ∈ ts, error = .notUtf8 token.start token.stop := by
  rw [Expr.ofAll_eq_error_iff, h.findSome?_fault mem closed] at failed
  obtain ⟨token, isToken, fault⟩ := List.exists_of_findSome?_eq_some failed
  rcases Token.fault_eq_some_iff.1 fault with ⟨-, -, e⟩ | ⟨never, -⟩
  · exact ⟨token, isToken, e⟩
  · exact absurd never (closed token isToken)

namespace Expr

/-- Parsing fails with the first fault among the contents of the first top-level node. -/
theorem parse_eq_error_iff {source : List UInt8} {first : Node} {rest : List Node}
    (h : Node.forest (tokens source) = first :: rest) {error : Error} :
    parse source = .error error ↔ (first.contents source).findSome? (Token.fault source) = some error := by
  rw [parse_eq, h, ← Node.findSome?_fault_first h]
  exact ofNode_eq_error_iff first

/-- A fault is one of the two kinds, and it is a fault of a token inside the node. -/
private theorem exists_token_of_error {source : List UInt8} {first : Node} {rest : List Node}
    (h : Node.forest (tokens source) = first :: rest) {error : Error} (failed : parse source = .error error) :
    ∃ token ∈ first.tokensInside source,
      error = .notUtf8 token.start token.stop ∨ error = .unknownKind .opening := by
  obtain ⟨token, mem, atFault⟩ := List.exists_of_findSome?_eq_some ((parse_eq_error_iff h).1 failed)
  refine ⟨token, ?_, ?_⟩
  · unfold Node.contents at mem
    split at mem
    · exact List.mem_of_mem_tail mem
    · exact mem
  · rcases Token.fault_eq_some_iff.1 atFault with ⟨-, -, e⟩ | ⟨-, e⟩
    · exact .inl e
    · exact .inr e

/-- Parsing can fail for three reasons. -/
theorem cause_of_parse_error {source : List UInt8} {error : Error} (failed : parse source = .error error) :
    error = .nothingToParse ∨ error = .unknownKind .opening ∨ ∃ start stop, error = .notUtf8 start stop := by
  cases forest : Node.forest (tokens source) with
  | nil =>
    rw [parse_eq, forest] at failed
    cases failed
    exact .inl rfl
  | cons first rest =>
    obtain ⟨token, -, e | e⟩ := exists_token_of_error forest failed
    · exact .inr (.inr ⟨_, _, e⟩)
    · exact .inr (.inl e)

private theorem exists_mem_tail {ts : List Token} {p : Token → Bool} (two : 2 ≤ (ts.filter p).length) :
    ∃ token ∈ ts.tail, p token := by
  cases ts with
  | nil => exact absurd two (by simp)
  | cons token ts =>
    rw [List.filter_cons] at two
    have some : 0 < (ts.filter p).length := by
      split at two
      · rw [List.length_cons] at two
        omega
      · omega
    obtain ⟨later, mem⟩ := List.exists_mem_of_length_pos some
    exact ⟨later, List.mem_filter.1 mem⟩

/-- With two parentheses that are never closed inside the first node, one is among the contents. -/
private theorem exists_error_of_two {source : List UInt8} {first : Node} {rest : List Node}
    (h : Node.forest (tokens source) = first :: rest)
    (two : 2 ≤ ((first.tokensInside source).filter (· ∈ neverClosed (tokens source))).length) :
    ∃ error, parse source = .error error := by
  obtain ⟨token, inTail, isNever⟩ := exists_mem_tail two
  have never : token ∈ neverClosed (tokens source) := of_decide_eq_true isNever
  have mem : token ∈ first.contents source := by
    unfold Node.contents
    split
    · exact inTail
    · exact List.mem_of_mem_tail inTail
  have atFault : token.fault source = some (.unknownKind .opening) := Token.fault_eq_some_iff.2 (.inr ⟨never, rfl⟩)
  have some : ((first.contents source).findSome? (Token.fault source)).isSome := by
    rw [List.findSome?_isSome_iff]
    exact ⟨token, mem, by simp [atFault]⟩
  obtain ⟨error, e⟩ := Option.isSome_iff_exists.1 some
  exact ⟨error, (parse_eq_error_iff h).2 e⟩

/-- How parsing a source ends.  A source of blanks alone has nothing to parse.  Of any other source, the first top-level
node decides: its first token at fault, other than the one at the front of a list or an error, is what parsing fails
with, and without such a token there is an expression.  So an atom at fault is one inside that node, and two parentheses
in it that are never closed are one too many. -/
theorem parse_outcome (source : List UInt8) :
    (parse source = .error .nothingToParse ↔ ∀ byte ∈ source, byte ∈ blankBytes) ∧
    (∀ error, parse source = .error error →
      error = .nothingToParse ∨ error = .unknownKind .opening ∨ ∃ start stop, error = .notUtf8 start stop) ∧
    ((∃ byte ∈ source, byte ∉ blankBytes) → ∃ first rest,
      Node.read source = .ok ⟨.root, 0, source.length, first :: rest⟩ ∧
      first.leaves = (first.tokensInside source).map Node.leaf ∧
      (∀ error, (first.contents source).findSome? (Token.fault source) = some error → parse source = .error error) ∧
      ((first.contents source).findSome? (Token.fault source) = none → ∃ e, parse source = .ok e) ∧
      (∀ start stop, parse source = .error (.notUtf8 start stop) → first.start ≤ start ∧ stop ≤ first.stop) ∧
      (2 ≤ ((first.tokensInside source).filter (· ∈ neverClosed (tokens source))).length →
        ∃ error, parse source = .error error)) := by
  have blank_iff : tokens source = [] ↔ ∀ byte ∈ source, byte ∈ blankBytes := by
    rw [tokens, Token.scan_eq_nil_iff]
    simp only [ByteClass.of_eq_blank_iff]
  by_cases empty : tokens source = []
  · have nothing : parse source = .error .nothingToParse := by
      rw [parse_eq, empty]
      rfl
    refine ⟨⟨fun _ => blank_iff.1 empty, fun _ => nothing⟩, fun error => cause_of_parse_error, ?_⟩
    rintro ⟨byte, mem, notBlank⟩
    exact absurd (blank_iff.1 empty byte mem) notBlank
  obtain ⟨first, rest, forest⟩ := List.exists_cons_of_ne_nil (Node.forest_ne_nil empty)
  obtain ⟨later, split, isFirst⟩ := tokensInside_first forest
  refine ⟨⟨fun failed => ?_, fun blank => absurd (blank_iff.2 blank) empty⟩, fun error => cause_of_parse_error,
    fun _ => ⟨first, rest, Node.read_eq_ok forest, isFirst.leaves_eq, fun error => (parse_eq_error_iff forest).2,
      ?_, ?_, exists_error_of_two forest⟩⟩
  · obtain ⟨token, -, e | e⟩ := exists_token_of_error forest failed <;> cases e
  · intro none
    cases outcome : parse source with
    | ok e => exact ⟨e, rfl⟩
    | error error =>
      rw [parse_eq_error_iff forest, none] at outcome
      cases outcome
  · intro start stop failed
    obtain ⟨token, mem, e | e⟩ := exists_token_of_error forest failed <;> cases e
    exact of_decide_eq_true (List.mem_filter.1 mem).2

/-- The source `(a` with a byte that is not UTF-8, and two more lists that are never closed. -/
theorem parse_outcome_first_fault :
    (∃ byte ∈ [0x28, 0x61, 0x20, 0xff, 0x28, 0x28], byte ∉ blankBytes) ∧
      parse [0x28, 0x61, 0x20, 0xff, 0x28, 0x28] = .error (.notUtf8 3 4) := by
  have visible : ∃ byte ∈ [0x28, 0x61, 0x20, 0xff, 0x28, 0x28], byte ∉ blankBytes := by decide
  obtain ⟨first, rest, isFirst, -, fails, -⟩ := (parse_outcome [0x28, 0x61, 0x20, 0xff, 0x28, 0x28]).2.2 visible
  refine ⟨visible, fails _ ?_⟩
  cases isFirst
  decide +kernel

end Expr

end SExprLayout
