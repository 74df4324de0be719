import SExprLayout.Error
import SExprLayout.Source.Node

/-!
# The concrete tree of a source

The tokens of a source are arranged by their parentheses: a closing parenthesis closes the list that was opened
last.  A closing parenthesis with no open list is an error node of its own.  Lists that are still open at the end
become one error node, in which the opening parentheses of the inner ones stand as they are.  A source with at
least one token always has a tree, and whatever its parentheses, the leaves of its top-level nodes are the tokens,
each of them once and in order (`leaves_forest`).
-/

namespace SExprLayout

/-- A list that is still open: the parenthesis that opened it and the nodes read since then, latest first. -/
structure Frame where
  opening : Token
  items : List Node

/-- What has been read of a source: the finished top-level nodes, latest first, and the open lists, innermost first. -/
structure Reading where
  finished : List Node
  frames : List Frame

namespace Frame

/-- The nodes of a list that is never closed, in source order. -/
def nodes (frame : Frame) : List Node := Node.leaf frame.opening :: frame.items.reverse

/-- The node of a list that is closed by the given parenthesis. -/
def close (frame : Frame) (closing : Token) : Node :=
  Node.spanning .list (Node.leaf frame.opening) (frame.items.reverse ++ [Node.leaf closing])

end Frame

namespace Reading

/-- Nothing has been read. -/
def start : Reading := ⟨[], []⟩

/-- Adds a node to the innermost open list, or to the top level if none is open. -/
def add (node : Node) : Reading → Reading
  | ⟨finished, []⟩ => ⟨node :: finished, []⟩
  | ⟨finished, frame :: frames⟩ => ⟨finished, { frame with items := node :: frame.items } :: frames⟩

/-- Reads one more token. -/
def step (reading : Reading) (token : Token) : Reading :=
  match token.lexeme with
  | .opening => { reading with frames := ⟨token, []⟩ :: reading.frames }
  | .atom _ => reading.add (Node.leaf token)
  | .closing =>
    match reading.frames with
    | [] => reading.add (Node.spanning .error (Node.leaf token) [])
    | frame :: frames => { reading with frames }.add (frame.close token)

/-- The one error node for the lists that are still open, if there are any. -/
def unclosed (reading : Reading) : List Node :=
  match reading.frames.reverse.flatMap Frame.nodes with
  | [] => []
  | first :: rest => [Node.spanning .error first rest]

/-- The top-level nodes when the source ends here. -/
def finish (reading : Reading) : List Node := reading.finished.reverse ++ reading.unclosed

end Reading

namespace Node

/-- The top-level nodes of a row of tokens. -/
def forest (tokens : List Token) : List Node := (tokens.foldl Reading.step Reading.start).finish

/-- The concrete tree of a source. -/
def read (source : List UInt8) : Except Error Node :=
  match tokens source with
  | [] => .error .nothingToParse
  | first :: rest => .ok ⟨.root, 0, source.length, forest (first :: rest)⟩

end Node

/-! ### No token is lost -/

namespace Reading

/-- The leaves read so far, in source order. -/
def leaves (reading : Reading) : List Node :=
  reading.finished.reverse.flatMap Node.leaves ++
    reading.frames.reverse.flatMap fun frame => frame.nodes.flatMap Node.leaves

@[simp] theorem leaves_start : start.leaves = [] := rfl

@[simp] theorem leaves_add (node : Node) (reading : Reading) :
    (reading.add node).leaves = reading.leaves ++ node.leaves := by
  rcases reading with ⟨finished, _ | ⟨frame, frames⟩⟩
  · simp [add, leaves]
  · simp [add, leaves, Frame.nodes]

@[simp] theorem leaves_step (reading : Reading) (token : Token) :
    (reading.step token).leaves = reading.leaves ++ [Node.leaf token] := by
  unfold step
  split
  · simp [leaves, Frame.nodes]
  · simp
  · split
    · simp
    · rename_i frame frames hf
      rw [leaves_add]
      simp [leaves, hf, Frame.close, Frame.nodes]

theorem leaves_foldl_step (reading : Reading) (tokens : List Token) :
    (tokens.foldl step reading).leaves = reading.leaves ++ tokens.map Node.leaf := by
  induction tokens generalizing reading with
  | nil => exact (List.append_nil _).symm
  | cons token tokens ih =>
    rw [List.foldl_cons, ih, leaves_step, List.append_assoc, List.map_cons, List.singleton_append]

theorem leaves_finish (reading : Reading) : reading.finish.flatMap Node.leaves = reading.leaves := by
  have unclosed : reading.unclosed.flatMap Node.leaves =
      (reading.frames.reverse.flatMap Frame.nodes).flatMap Node.leaves := by
    unfold Reading.unclosed
    split
    · rename_i h
      rw [h]
    · rename_i first rest h
      simp [h]
  rw [finish, List.flatMap_append, unclosed, List.flatMap_assoc, leaves]

end Reading

/-- The leaves of the top-level nodes are the tokens. -/
theorem Node.leaves_forest (tokens : List Token) :
    (Node.forest tokens).flatMap Node.leaves = tokens.map Node.leaf := by
  rw [Node.forest, Reading.leaves_finish, Reading.leaves_foldl_step, Reading.leaves_start, List.nil_append]

end SExprLayout
