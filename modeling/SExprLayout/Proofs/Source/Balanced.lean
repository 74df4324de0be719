import SExprLayout.Source.Recovery

/-!
# Matched and unmatched parentheses

A row of tokens is balanced if each parenthesis in it has its partner there; it stands for a row of nodes, atoms and
closed lists (`Balanced`).  Any row of tokens falls into two parts (`forest_cases`): the first consists of balanced
stretches and stray closing parentheses (`TopLevel`), the second of the parentheses that are never closed, each with
the balanced stretch behind it (`Unclosed`).  The invariant behind this is `Arranged`: it says which tokens a reading
has put where, and every step of the reader keeps it.

Balanced tokens are read as their nodes wherever the reader meets them (`Balanced.foldl_step`).
-/

namespace SExprLayout

/-- The tokens have all their parentheses matched, and they stand for the nodes. -/
inductive Balanced : List Token → List Node → Prop
  | nil : Balanced [] []
  | atom {token : Token} {bytes : List UInt8} {tokens : List Token} {nodes : List Node}
      (lexeme : token.lexeme = .atom bytes) (rest : Balanced tokens nodes) :
      Balanced (token :: tokens) (Node.leaf token :: nodes)
  | list {first last : Token} {inner tokens : List Token} {items nodes : List Node}
      (opens : first.lexeme = .opening) (inside : Balanced inner items) (closes : last.lexeme = .closing)
      (rest : Balanced tokens nodes) :
      Balanced (first :: inner ++ last :: tokens)
        (Node.spanning .list (Node.leaf first) (items ++ [Node.leaf last]) :: nodes)

/-- Balanced stretches and stray closing parentheses, with their nodes. -/
inductive TopLevel : List Token → List Node → Prop
  | nil : TopLevel [] []
  | node {inner tokens : List Token} {node : Node} {nodes : List Node} (complete : Balanced inner [node])
      (rest : TopLevel tokens nodes) : TopLevel (inner ++ tokens) (node :: nodes)
  | stray {token : Token} {tokens : List Token} {nodes : List Node} (closes : token.lexeme = .closing)
      (rest : TopLevel tokens nodes) :
      TopLevel (token :: tokens) (Node.spanning .error (Node.leaf token) [] :: nodes)

/-- Opening parentheses without a partner, each with the balanced stretch behind it. -/
inductive Unclosed : List Token → List Node → Prop
  | nil : Unclosed [] []
  | cons {first : Token} {inner tokens : List Token} {items nodes : List Node} (opens : first.lexeme = .opening)
      (inside : Balanced inner items) (rest : Unclosed tokens nodes) :
      Unclosed (first :: inner ++ tokens) (Node.leaf first :: items ++ nodes)

/-! ### Rows one after the other -/

theorem Balanced.append {tokens later : List Token} {nodes more : List Node} (h : Balanced tokens nodes)
    (h' : Balanced later more) : Balanced (tokens ++ later) (nodes ++ more) := by
  induction h with
  | nil => exact h'
  | atom lexeme _ ih => exact .atom lexeme ih
  | list opens inside closes _ _ ih =>
    rw [List.append_assoc]
    exact .list opens inside closes ih

theorem TopLevel.append {tokens later : List Token} {nodes more : List Node} (h : TopLevel tokens nodes)
    (h' : TopLevel later more) : TopLevel (tokens ++ later) (nodes ++ more) := by
  induction h with
  | nil => exact h'
  | node complete _ ih =>
    rw [List.append_assoc]
    exact .node complete ih
  | stray closes _ ih => exact .stray closes ih

theorem Unclosed.append {tokens later : List Token} {nodes more : List Node} (h : Unclosed tokens nodes)
    (h' : Unclosed later more) : Unclosed (tokens ++ later) (nodes ++ more) := by
  induction h with
  | nil => exact h'
  | cons opens inside _ ih =>
    rw [List.append_assoc, List.append_assoc]
    exact .cons opens inside ih

theorem Balanced.topLevel {tokens : List Token} {nodes : List Node} (h : Balanced tokens nodes) :
    TopLevel tokens nodes := by
  induction h with
  | nil => exact .nil
  | @atom token _ tokens nodes lexeme _ ih =>
    have single : Balanced [token] [Node.leaf token] := .atom lexeme .nil
    exact .node single ih
  | @list first last inner tokens items nodes opens inside closes _ _ ih =>
    rw [show first :: inner ++ last :: tokens = (first :: inner ++ [last]) ++ tokens by simp]
    exact .node (.list opens inside closes .nil) ih

/-- Balanced tokens stand for atoms and lists. -/
theorem Balanced.kind_of_mem {tokens : List Token} {nodes : List Node} (h : Balanced tokens nodes) :
    ∀ node ∈ nodes, node.kind = .atom ∨ node.kind = .list := by
  induction h with
  | nil => nofun
  | @atom token bytes tokens nodes lexeme _ ih =>
    have kind : (Node.leaf token).kind = .atom := by
      rw [Node.leaf, lexeme]
      rfl
    exact List.forall_mem_cons.2 ⟨.inl kind, ih⟩
  | list _ _ _ _ _ ih => exact List.forall_mem_cons.2 ⟨.inr rfl, ih⟩

theorem Balanced.kind_ne_error {tokens : List Token} {nodes : List Node} (h : Balanced tokens nodes) :
    ∀ node ∈ nodes, node.kind ≠ .error := by
  intro node mem
  rcases h.kind_of_mem node mem with kind | kind <;> rw [kind] <;> nofun

/-! ### Reading balanced tokens -/

namespace Reading

/-- Adds nodes in a row to the innermost open list, or to the top level if none is open. -/
def addAll (nodes : List Node) : Reading → Reading
  | ⟨finished, []⟩ => ⟨nodes.reverse ++ finished, []⟩
  | ⟨finished, frame :: frames⟩ => ⟨finished, { frame with items := nodes.reverse ++ frame.items } :: frames⟩

@[simp] theorem addAll_nil (reading : Reading) : reading.addAll [] = reading := by
  rcases reading with ⟨finished, _ | ⟨frame, frames⟩⟩ <;> rfl

@[simp] theorem addAll_cons (node : Node) (nodes : List Node) (reading : Reading) :
    reading.addAll (node :: nodes) = (reading.add node).addAll nodes := by
  rcases reading with ⟨finished, _ | ⟨frame, frames⟩⟩ <;> simp [addAll, add]

theorem step_opening {token : Token} (h : token.lexeme = .opening) (reading : Reading) :
    reading.step token = ⟨reading.finished, ⟨token, []⟩ :: reading.frames⟩ := by
  rw [step, h]

theorem step_atom {token : Token} {bytes : List UInt8} (h : token.lexeme = .atom bytes) (reading : Reading) :
    reading.step token = reading.add (Node.leaf token) := by
  rw [step, h]

theorem step_closing {token : Token} (h : token.lexeme = .closing) (finished : List Node) (frame : Frame)
    (frames : List Frame) :
    step ⟨finished, frame :: frames⟩ token = add (frame.close token) ⟨finished, frames⟩ := by
  rw [step, h]

theorem step_stray {token : Token} (h : token.lexeme = .closing) (finished : List Node) :
    step ⟨finished, []⟩ token = ⟨Node.spanning .error (Node.leaf token) [] :: finished, []⟩ := by
  rw [step, h]
  rfl

end Reading

/-- Balanced tokens are read as their nodes, whatever was read before. -/
theorem Balanced.foldl_step {tokens : List Token} {nodes : List Node} (h : Balanced tokens nodes)
    (reading : Reading) : tokens.foldl Reading.step reading = reading.addAll nodes := by
  induction h generalizing reading with
  | nil => exact (Reading.addAll_nil reading).symm
  | atom lexeme _ ih => rw [List.foldl_cons, Reading.step_atom lexeme, ih, Reading.addAll_cons]
  | @list first last inner tokens items nodes opens inside closes _ ihInside ih =>
    rw [List.cons_append, List.foldl_cons, Reading.step_opening opens, List.foldl_append, ihInside, List.foldl_cons,
      Reading.addAll, Reading.step_closing closes, ih, Reading.addAll_cons]
    simp [Frame.close]

/-! ### Which tokens a reading has put where -/

/-- The tokens were read as this: the finished nodes stand for tokens at the top level, and behind them each open list
has its parenthesis and the nodes of a balanced stretch. -/
inductive Arranged : List Token → Reading → Prop
  | top {tokens : List Token} {nodes : List Node} (h : TopLevel tokens nodes) : Arranged tokens ⟨nodes.reverse, []⟩
  | inside {tokens inner : List Token} {first : Token} {finished items : List Node} {frames : List Frame}
      (outer : Arranged tokens ⟨finished, frames⟩) (opens : first.lexeme = .opening) (h : Balanced inner items) :
      Arranged (tokens ++ first :: inner) ⟨finished, ⟨first, items.reverse⟩ :: frames⟩

namespace Arranged

private theorem addAll {tokens later : List Token} {reading : Reading} {nodes : List Node}
    (h : Arranged tokens reading) (h' : Balanced later nodes) :
    Arranged (tokens ++ later) (reading.addAll nodes) := by
  cases h with
  | top h =>
    rw [Reading.addAll, ← List.reverse_append]
    exact .top (h.append h'.topLevel)
  | inside outer opens h =>
    rw [Reading.addAll, ← List.reverse_append, List.append_assoc, List.cons_append]
    exact .inside outer opens (h.append h')

/-- Reading one more token keeps the arrangement. -/
theorem step {tokens : List Token} {reading : Reading} (h : Arranged tokens reading) (token : Token) :
    Arranged (tokens ++ [token]) (reading.step token) := by
  match lexeme : token.lexeme with
  | .opening =>
    rw [Reading.step_opening lexeme]
    exact .inside h lexeme .nil
  | .atom bytes =>
    rw [Reading.step_atom lexeme, ← Reading.addAll_nil (reading.add _), ← Reading.addAll_cons]
    exact h.addAll (.atom lexeme .nil)
  | .closing =>
    cases h with
    | top h =>
      rw [Reading.step_stray lexeme, ← List.reverse_concat]
      exact .top (h.append (.stray lexeme .nil))
    | @inside tokens inner first finished items frames outer opens h =>
      rw [Reading.step_closing lexeme, ← Reading.addAll_nil (Reading.add _ _), ← Reading.addAll_cons,
        List.append_assoc, Frame.close, List.reverse_reverse]
      exact outer.addAll (.list opens h lexeme .nil)

/-- Whatever tokens are read, what was read is arranged. -/
theorem foldl_step {tokens : List Token} {reading : Reading} (h : Arranged tokens reading) (later : List Token) :
    Arranged (tokens ++ later) (later.foldl Reading.step reading) := by
  induction later generalizing tokens reading with
  | nil => rwa [List.append_nil]
  | cons token later ih =>
    have := ih (h.step token)
    rwa [List.append_assoc] at this

/-- The tokens of an arrangement fall into those of the finished nodes and those of the open lists. -/
theorem split {tokens : List Token} {reading : Reading} (h : Arranged tokens reading) :
    ∃ before after, tokens = before ++ after ∧ TopLevel before reading.finished.reverse ∧
      Unclosed after (reading.frames.reverse.flatMap Frame.nodes) := by
  induction h with
  | @top tokens nodes h => exact ⟨tokens, [], by simp, by simpa using h, .nil⟩
  | @inside tokens inner first finished items frames outer opens h ih =>
    obtain ⟨before, after, rfl, finish, rest⟩ := ih
    refine ⟨before, after ++ first :: inner, by simp, finish, ?_⟩
    have last : Unclosed (first :: inner ++ []) (Node.leaf first :: items ++ []) := .cons opens h .nil
    simpa [Frame.nodes] using rest.append last

end Arranged

/-- The error node of opening parentheses without a partner, if there are any. -/
def Node.recovered : List Node → List Node
  | [] => []
  | first :: rest => [spanning .error first rest]

private theorem Reading.unclosed_eq (reading : Reading) :
    reading.unclosed = Node.recovered (reading.frames.reverse.flatMap Frame.nodes) := by
  unfold Reading.unclosed
  split <;> rename_i h <;> rw [h] <;> rfl

/-- Any tokens are read as nodes of the top level, and one error node for what is never closed. -/
theorem forest_cases (tokens : List Token) :
    ∃ before after nodes rest, tokens = before ++ after ∧ TopLevel before nodes ∧ Unclosed after rest ∧
      Node.forest tokens = nodes ++ Node.recovered rest := by
  have arranged : Arranged tokens (tokens.foldl Reading.step Reading.start) :=
    Arranged.foldl_step (.top .nil) tokens
  obtain ⟨before, after, e, finish, rest⟩ := arranged.split
  refine ⟨before, after, _, _, e, finish, rest, ?_⟩
  rw [Node.forest, Reading.finish, Reading.unclosed_eq]

/-! ### The tree of tokens that are known to be nodes -/

theorem TopLevel.foldl_step {tokens : List Token} {nodes : List Node} (h : TopLevel tokens nodes)
    (finished : List Node) :
    tokens.foldl Reading.step ⟨finished, []⟩ = ⟨nodes.reverse ++ finished, []⟩ := by
  induction h generalizing finished with
  | nil => rfl
  | node complete _ ih =>
    rw [List.foldl_append, complete.foldl_step, Reading.addAll, ih]
    simp
  | stray closes _ ih =>
    rw [List.foldl_cons, Reading.step_stray closes, ih]
    simp

/-- Parentheses that are never closed leave their lists open. -/
theorem Unclosed.foldl_step {tokens : List Token} {nodes : List Node} (h : Unclosed tokens nodes)
    (finished : List Node) (frames : List Frame) :
    ∃ opened : List Frame, tokens.foldl Reading.step ⟨finished, frames⟩ = ⟨finished, opened ++ frames⟩ ∧
      opened.reverse.flatMap Frame.nodes = nodes := by
  induction h generalizing frames with
  | nil => exact ⟨[], rfl, rfl⟩
  | @cons first inner tokens items nodes opens inside _ ih =>
    obtain ⟨opened, read, e⟩ := ih (⟨first, items.reverse⟩ :: frames)
    refine ⟨opened ++ [⟨first, items.reverse⟩], ?_, ?_⟩
    · rw [List.foldl_append, List.foldl_cons, Reading.step_opening opens, inside.foldl_step, Reading.addAll,
        List.append_nil, read, List.append_assoc, List.singleton_append]
    · simp [e, Frame.nodes]

/-- Tokens of the top level and tokens that are never closed have their own nodes as the concrete tree. -/
theorem TopLevel.forest_append {before after : List Token} {nodes rest : List Node} (h : TopLevel before nodes)
    (h' : Unclosed after rest) : Node.forest (before ++ after) = nodes ++ Node.recovered rest := by
  obtain ⟨opened, read, e⟩ := h'.foldl_step (nodes.reverse ++ []) []
  rw [Node.forest, Reading.start, List.foldl_append, h.foldl_step, read, Reading.finish, Reading.unclosed_eq]
  simp [e]

/-- Balanced tokens have their own nodes as the concrete tree. -/
theorem Balanced.forest_eq {tokens : List Token} {nodes : List Node} (h : Balanced tokens nodes) :
    Node.forest tokens = nodes := by
  have whole := h.topLevel.forest_append .nil
  rwa [List.append_nil, Node.recovered, List.append_nil] at whole

end SExprLayout
