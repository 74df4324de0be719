import Mathlib.Data.List.Forall2
import SExprLayout.Source.Recovery

/-!
# Trees of the same shape

Two trees correspond if they have nodes of the same kinds in the same places and related tokens at the leaves
(`Node.Corresponds`).  Rows of tokens that are related one by one, each token to one that spells the same, are read side
by side: whatever was read of both corresponds after each step if it did before (`Reading.Corresponds.step`), and hence
so do the trees (`forest_corresponds`).  Where the tokens stand makes no difference to the shape.
-/

namespace SExprLayout

variable {R : Token → Token → Prop}

/-- The nodes are leaves of related tokens, or they are of the same kind and their children correspond one by one. -/
inductive Node.Corresponds (R : Token → Token → Prop) : Node → Node → Prop
  | leaf {token token' : Token} (h : R token token') : Corresponds R (leaf token) (leaf token')
  | branch {kind : Kind} {start stop start' stop' : Int} {first first' : Node} {rest rest' : List Node}
      (inner : kind ≠ .atom) (one : Corresponds R first first') (others : List.Forall₂ (Corresponds R) rest rest') :
      Corresponds R ⟨kind, start, stop, first :: rest⟩ ⟨kind, start', stop', first' :: rest'⟩

/-- The open lists begin with related parentheses and hold nodes that correspond. -/
structure Frame.Corresponds (R : Token → Token → Prop) (frame frame' : Frame) : Prop where
  opening : R frame.opening frame'.opening
  items : List.Forall₂ (Node.Corresponds R) frame.items frame'.items

/-- What was read of two rows of tokens corresponds, at the top level and in each open list. -/
structure Reading.Corresponds (R : Token → Token → Prop) (reading reading' : Reading) : Prop where
  finished : List.Forall₂ (Node.Corresponds R) reading.finished reading'.finished
  frames : List.Forall₂ (Frame.Corresponds R) reading.frames reading'.frames

namespace Frame.Corresponds

variable {frame frame' : Frame}

theorem nodes (h : frame.Corresponds R frame') : List.Forall₂ (Node.Corresponds R) frame.nodes frame'.nodes :=
  .cons (.leaf h.opening) (List.rel_reverse h.items)

theorem close (h : frame.Corresponds R frame') {closing closing' : Token} (last : R closing closing') :
    (frame.close closing).Corresponds R (frame'.close closing') :=
  .branch nofun (.leaf h.opening) (List.rel_append (List.rel_reverse h.items) (.cons (.leaf last) .nil))

end Frame.Corresponds

namespace Reading.Corresponds

variable {reading reading' : Reading}

theorem add (h : reading.Corresponds R reading') {node node' : Node} (one : node.Corresponds R node') :
    (reading.add node).Corresponds R (reading'.add node') := by
  obtain ⟨finished, frames⟩ := h
  rcases reading with ⟨done, frames'⟩
  rcases reading' with ⟨done', frames''⟩
  cases frames with
  | nil => exact ⟨.cons one finished, .nil⟩
  | cons frame others => exact ⟨finished, .cons ⟨frame.opening, .cons one frame.items⟩ others⟩

/-- Reading two related tokens keeps the correspondence. -/
theorem step (spelled : ∀ token token', R token token' → token.lexeme = token'.lexeme)
    (h : reading.Corresponds R reading') {token token' : Token} (related : R token token') :
    (reading.step token).Corresponds R (reading'.step token') := by
  have same := spelled token token' related
  match lexeme : token.lexeme with
  | .opening =>
    rw [Reading.step, Reading.step, ← same, lexeme]
    exact ⟨h.finished, .cons ⟨related, .nil⟩ h.frames⟩
  | .atom bytes =>
    rw [Reading.step, Reading.step, ← same, lexeme]
    exact h.add (.leaf related)
  | .closing =>
    rw [Reading.step, Reading.step, ← same, lexeme]
    rcases reading with ⟨done, opened⟩
    rcases reading' with ⟨done', opened'⟩
    obtain ⟨finished, frames⟩ := h
    cases frames with
    | nil =>
      have unchanged : Reading.Corresponds R ⟨done, []⟩ ⟨done', []⟩ := ⟨finished, .nil⟩
      exact unchanged.add (.branch nofun (.leaf related) .nil)
    | @cons frame frame' outer outer' one others =>
      have left : Reading.Corresponds R ⟨done, outer⟩ ⟨done', outer'⟩ := ⟨finished, others⟩
      exact left.add (one.close related)

theorem finish (h : reading.Corresponds R reading') :
    List.Forall₂ (Node.Corresponds R) reading.finish reading'.finish := by
  refine List.rel_append (List.rel_reverse h.finished) ?_
  have bare : List.Forall₂ (Node.Corresponds R) (reading.frames.reverse.flatMap Frame.nodes)
      (reading'.frames.reverse.flatMap Frame.nodes) :=
    List.rel_flatMap (List.rel_reverse h.frames) fun _ _ => Frame.Corresponds.nodes
  unfold Reading.unclosed
  generalize reading.frames.reverse.flatMap Frame.nodes = nodes,
    reading'.frames.reverse.flatMap Frame.nodes = nodes' at bare
  cases bare with
  | nil => exact .nil
  | cons one others => exact .cons (.branch nofun one others) .nil

end Reading.Corresponds

/-- Tokens that are related one by one, and spelled alike, are read as trees that correspond. -/
theorem Node.forest_corresponds (spelled : ∀ token token', R token token' → token.lexeme = token'.lexeme)
    {ts us : List Token} (related : List.Forall₂ R ts us) :
    List.Forall₂ (Node.Corresponds R) (forest ts) (forest us) := by
  have start : Reading.start.Corresponds R Reading.start := ⟨.nil, .nil⟩
  have read : (ts.foldl Reading.step Reading.start).Corresponds R (us.foldl Reading.step Reading.start) :=
    List.rel_foldl (fun _ _ h _ _ => h.step spelled) start related
  exact read.finish

end SExprLayout
