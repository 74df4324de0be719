import SExprLayout.Proofs.Source.Partner

/-!
# Sources in a row

A source that follows another one is scanned as it would be alone, only further on, unless an atom runs over the seam
(`tokens_append`).  If the first one leaves no parenthesis open, the same holds of the nodes at the top level
(`forest_tokens_append`): what was read as balanced, as the top level or as never closed is read so wherever it stands.
-/

namespace SExprLayout

/-! ### Tokens further on -/

theorem Balanced.map_shift {ts : List Token} {nodes : List Node} (h : Balanced ts nodes) (distance : Nat) :
    Balanced (ts.map (Token.shift distance)) (nodes.map (Node.shift distance)) := by
  induction h with
  | nil => exact .nil
  | atom lexeme _ ih =>
    rw [List.map_cons, List.map_cons, Node.shift_leaf]
    exact .atom lexeme ih
  | @list first last inner ts items nodes opens _ closes _ ihInside ih =>
    rw [List.map_append, List.map_cons, List.map_cons, List.map_cons, Node.shift_spanning, Node.shift_leaf,
      List.map_append, List.map_singleton, Node.shift_leaf]
    exact .list opens ihInside closes ih

theorem TopLevel.map_shift {ts : List Token} {nodes : List Node} (h : TopLevel ts nodes) (distance : Nat) :
    TopLevel (ts.map (Token.shift distance)) (nodes.map (Node.shift distance)) := by
  induction h with
  | nil => exact .nil
  | node complete _ ih =>
    rw [List.map_append, List.map_cons]
    exact .node (complete.map_shift distance) ih
  | stray closes _ ih =>
    rw [List.map_cons, List.map_cons, Node.shift_spanning, Node.shift_leaf]
    exact .stray closes ih

theorem Unclosed.map_shift {ts : List Token} {nodes : List Node} (h : Unclosed ts nodes) (distance : Nat) :
    Unclosed (ts.map (Token.shift distance)) (nodes.map (Node.shift distance)) := by
  induction h with
  | nil => exact .nil
  | cons opens inside _ ih =>
    rw [List.map_append, List.map_cons, List.map_append, List.map_cons, Node.shift_leaf]
    exact .cons opens (inside.map_shift distance) ih

namespace Node

theorem map_shift_recovered (distance : Int) (nodes : List Node) :
    (recovered nodes).map (shift distance) = recovered (nodes.map (shift distance)) := by
  cases nodes with
  | nil => rfl
  | cons first rest => rw [recovered, List.map_singleton, shift_spanning, List.map_cons, recovered]

/-- Tokens further on are read as the same nodes further on. -/
theorem forest_map_shift (distance : Nat) (ts : List Token) :
    forest (ts.map (Token.shift distance)) = (forest ts).map (shift distance) := by
  obtain ⟨before, after, nodes, rest, rfl, top, unclosed, e⟩ := forest_cases ts
  have moved := (top.map_shift distance).forest_append (unclosed.map_shift distance)
  rw [List.map_append, moved, e, List.map_append, map_shift_recovered]

/-- Behind tokens that leave no parenthesis open, tokens are read as they are alone. -/
theorem forest_append {ts : List Token} (closed : neverClosed ts = []) (us : List Token) :
    forest (ts ++ us) = forest ts ++ forest us := by
  obtain ⟨nodes, top⟩ := exists_topLevel closed
  obtain ⟨before, after, more, rest, rfl, top', unclosed, e⟩ := forest_cases us
  have alone : forest ts = nodes := by
    have whole := top.forest_append .nil
    rwa [List.append_nil, recovered, List.append_nil] at whole
  rw [e, alone, ← List.append_assoc, (top.append top').forest_append unclosed, List.append_assoc]

end Node

/-! ### Two sources -/

/-- No atom runs over the seam between two sources. -/
def Apart (before after : List UInt8) : Prop :=
  (∀ byte ∈ before.getLast?, ByteClass.of byte ≠ .ordinary) ∨ ∀ byte ∈ after.head?, ByteClass.of byte ≠ .ordinary

theorem apart_of_getLast? {before after : List UInt8} {byte : UInt8} (last : before.getLast? = some byte)
    (h : ByteClass.of byte ≠ .ordinary) : Apart before after := by
  refine .inl fun other isLast => ?_
  obtain rfl := Option.some.inj (last.symm.trans isLast)
  exact h

theorem apart_of_head? {before after : List UInt8} {byte : UInt8} (first : after.head? = some byte)
    (h : ByteClass.of byte ≠ .ordinary) : Apart before after := by
  refine .inr fun other isFirst => ?_
  obtain rfl := Option.some.inj (first.symm.trans isFirst)
  exact h

theorem tokens_append {before after : List UInt8} (apart : Apart before after) :
    tokens (before ++ after) = tokens before ++ (tokens after).map (Token.shift before.length) := by
  rw [tokens, Token.scan_append apart, Token.scan_add, tokens, tokens]

/-- The nodes at the top level of two sources in a row are those of the first and, further on, those of the second. -/
theorem forest_tokens_append {before after : List UInt8} (apart : Apart before after)
    (closed : neverClosed (tokens before) = []) :
    Node.forest (tokens (before ++ after)) =
      Node.forest (tokens before) ++ (Node.forest (tokens after)).map (Node.shift before.length) := by
  rw [tokens_append apart, Node.forest_append closed, Node.forest_map_shift]

end SExprLayout
