import SExprLayout.Proofs.Expr.Alike
import SExprLayout.Proofs.Expr.Fault
import SExprLayout.Proofs.RoundTrip

/-!
# A list that is never closed

An opening parenthesis before a source whose own parentheses all have partners is never closed.  What it begins is read
as the list of the expressions in the source behind the heading `ERROR`, without a nil (`parse_unclosed`), and with a
parenthesis at the end it would be the list of these expressions and nil (`parse_enclosed`).  So it is formatted as the
list that has the word `ERROR` written into it, and neither of them can be read unless both can
(`formatSource_unclosed`).
-/

namespace SExprLayout

namespace Expr

variable {rest : List UInt8} {nodes : List Node}

private theorem inside_of_balanced (balanced : Balanced (tokens rest) nodes) :
    ∀ node ∈ nodes, node.Inside rest.length := by
  rw [← balanced.forest_eq]
  exact fun node => Node.inside_of_mem_forest

private theorem tokens_opening_append (rest : List UInt8) :
    tokens ([0x28] ++ rest) = ⟨0, .opening⟩ :: (tokens rest).map (Token.shift 1) :=
  tokens_append (apart_of_getLast? rfl (by decide))

/-- Behind a parenthesis that is never closed, balanced tokens are read as they are alone, behind a heading. -/
theorem parse_unclosed (balanced : Balanced (tokens rest) nodes) :
    parse (0x28 :: rest) =
      ((ofAll rest nodes).mapError (Error.shift 1)).map fun es => list (heading .error ++ es) := by
  have unclosed : Unclosed (⟨0, .opening⟩ :: (tokens rest).map (Token.shift 1) ++ [])
      (Node.leaf ⟨0, .opening⟩ :: nodes.map (Node.shift 1) ++ []) :=
    .cons rfl (balanced.map_shift 1) .nil
  have forest := TopLevel.nil.forest_append unclosed
  have moved := ofAll_shift [0x28] [] (inside_of_balanced balanced)
  rw [List.nil_append, List.append_nil, List.append_nil, ← tokens_opening_append] at forest
  rw [List.append_nil] at moved
  rw [parse_eq, ← List.singleton_append, forest]
  show ofNode _ (Node.spanning .error _ _) = _
  rw [ofNode_spanning (.inr rfl)]
  exact congrArg (Except.map _) moved

/-- Between two parentheses, balanced tokens are read as they are alone, before a nil. -/
theorem parse_enclosed (balanced : Balanced (tokens rest) nodes) :
    parse (0x28 :: rest ++ [0x29]) =
      ((ofAll rest nodes).mapError (Error.shift 1)).map fun es => list (es ++ [nil]) := by
  let last : Token := Token.shift ([0x28] ++ rest).length ⟨0, .closing⟩
  have scanned : tokens ([0x28] ++ rest ++ [0x29]) = ⟨0, .opening⟩ :: (tokens rest).map (Token.shift 1) ++ [last] := by
    rw [tokens_append (apart_of_head? rfl (by decide)), tokens_opening_append]
    rfl
  have closed : Balanced (⟨0, .opening⟩ :: (tokens rest).map (Token.shift 1) ++ [last])
      [Node.spanning .list (Node.leaf ⟨0, .opening⟩) (nodes.map (Node.shift 1) ++ [Node.leaf last])] :=
    .list rfl (balanced.map_shift 1) rfl .nil
  have forest := closed.forest_eq
  have moved := ofAll_shift [0x28] [0x29] (inside_of_balanced balanced)
  rw [← scanned] at forest
  rw [parse_eq, ← List.singleton_append, forest]
  show ofNode _ (Node.spanning .list _ _) = _
  rw [ofNode_closed rfl]
  exact congrArg (Except.map _) moved

/-- Behind the word `ERROR` and a space, balanced tokens are read as they are alone, behind an atom. -/
private theorem ofAll_headed (balanced : Balanced (tokens rest) nodes) :
    ∃ headed, Balanced (tokens (Utf8.encode "ERROR " ++ rest)) headed ∧
      ofAll (Utf8.encode "ERROR " ++ rest) headed =
        ((ofAll rest nodes).mapError (Error.shift 6)).map fun es => heading .error ++ es := by
  let word : Token := ⟨0, .atom (Utf8.encode "ERROR")⟩
  have scanned : tokens (Utf8.encode "ERROR " ++ rest) = word :: (tokens rest).map (Token.shift 6) :=
    tokens_append (apart_of_getLast? rfl (by decide))
  have isToken : word ∈ tokens (Utf8.encode "ERROR " ++ rest) := scanned ▸ List.mem_cons_self
  have read : ofNode (Utf8.encode "ERROR " ++ rest) (Node.leaf word) = .ok (atom ⟨"ERROR", by decide⟩) :=
    (ofNode_leaf_eq_ok_iff isToken rfl).2 ⟨_, rfl, rfl⟩
  have moved := ofAll_shift (Utf8.encode "ERROR ") [] (inside_of_balanced balanced)
  rw [List.append_nil] at moved
  have later : ofAll (Utf8.encode "ERROR " ++ rest) (nodes.map (Node.shift 6)) =
      (ofAll rest nodes).mapError (Error.shift 6) := moved
  refine ⟨Node.leaf word :: nodes.map (Node.shift 6), ?_, ?_⟩
  · rw [scanned]
    exact .atom rfl (balanced.map_shift 6)
  · rw [ofAll, read, later]
    cases ofAll rest nodes <;> rfl

/-- Balanced tokens can fail to be read only because an atom is not UTF-8. -/
private theorem error_of_balanced (balanced : Balanced (tokens rest) nodes) {error : Error}
    (failed : ofAll rest nodes = .error error) : ∃ start stop, error = .notUtf8 start stop := by
  have closed : neverClosed (tokens rest) = [] := (matched_iff.2 ⟨nodes, balanced⟩).2
  have none : ∀ token ∈ tokens rest, token ∉ neverClosed (tokens rest) := by
    rw [closed]
    exact fun _ _ => List.not_mem_nil
  obtain ⟨token, -, e⟩ := balanced.exists_notUtf8 (fun _ mem => mem) none failed
  exact ⟨_, _, e⟩

end Expr

/-- A source whose parentheses all have partners, behind one that is never closed, is formatted as the list that has
the word `ERROR` at its head.  Either both are read and written as the same text, and then what is read differs by the
nil at the end, and a list without the word by the word; or both fail at the same atom, which is six bytes further on
behind the word. -/
theorem formatSource_unclosed {rest : List UInt8} (matched : Matched (tokens rest)) {maxWidth indentSize : Int}
    (hw : 0 ≤ maxWidth) (hi : 0 ≤ indentSize) :
    (∃ out children,
      formatSource (some (.integer maxWidth)) (some (.integer indentSize))
        (.bytes (Utf8.encode "(" ++ rest)) = .ok out ∧
      formatSource (some (.integer maxWidth)) (some (.integer indentSize))
        (.bytes (Utf8.encode "(ERROR " ++ rest ++ Utf8.encode ")")) = .ok out ∧
      Expr.ofArgument (.bytes (Utf8.encode "(" ++ rest)) =
        .ok (.list (.atom ⟨"ERROR", by decide⟩ :: children)) ∧
      Expr.ofArgument (.bytes (Utf8.encode "(ERROR " ++ rest ++ Utf8.encode ")")) =
        .ok (.list (.atom ⟨"ERROR", by decide⟩ :: children ++ [.nil])) ∧
      Expr.ofArgument (.bytes (Utf8.encode "(" ++ rest ++ Utf8.encode ")")) = .ok (.list (children ++ [.nil]))) ∨
    ∃ start stop,
      formatSource (some (.integer maxWidth)) (some (.integer indentSize))
        (.bytes (Utf8.encode "(" ++ rest)) = .error (.notUtf8 start stop) ∧
      formatSource (some (.integer maxWidth)) (some (.integer indentSize))
        (.bytes (Utf8.encode "(ERROR " ++ rest ++ Utf8.encode ")")) = .error (.notUtf8 (start + 6) (stop + 6)) := by
  obtain ⟨nodes, balanced⟩ := matched_iff.1 matched
  obtain ⟨headed, balanced', read⟩ := Expr.ofAll_headed balanced
  have unclosed : Expr.ofArgument (.bytes (0x28 :: rest)) = _ := Expr.parse_unclosed balanced
  have enclosed : Expr.ofArgument (.bytes (0x28 :: rest ++ [0x29])) = _ := Expr.parse_enclosed balanced
  have worded : Expr.ofArgument (.bytes (0x28 :: (Utf8.encode "ERROR " ++ rest) ++ [0x29])) = _ :=
    Expr.parse_enclosed balanced'
  have opening : Utf8.encode "(" ++ rest = 0x28 :: rest := by
    rw [show Utf8.encode "(" = [0x28] by decide, List.singleton_append]
  have word : Utf8.encode "(ERROR " ++ rest = 0x28 :: (Utf8.encode "ERROR " ++ rest) := by
    rw [show Utf8.encode "(ERROR " = 0x28 :: Utf8.encode "ERROR " by decide, List.cons_append]
  have closing : Utf8.encode ")" = [0x29] := by decide
  rw [opening, word, closing, formatSource_integer hw hi, formatSource_integer hw hi, unclosed, enclosed, worded, read]
  cases outcome : Expr.ofAll rest nodes with
  | ok es =>
    left
    have written := congrArg (fun pieces => String.join (pieces.flatMap Piece.writes))
      (Expr.pieces_concat_nil ⟨maxWidth, indentSize⟩ (.atom ⟨"ERROR", by decide⟩) es)
    exact ⟨_, es, rfl, congrArg Except.ok written, rfl, rfl, rfl⟩
  | error error =>
    right
    obtain ⟨start, stop, rfl⟩ := Expr.error_of_balanced balanced outcome
    refine ⟨start + 1, stop + 1, rfl, ?_⟩
    rw [Int.add_right_comm start, Int.add_right_comm stop]
    rfl

/-- The source `a(b) é` behind a parenthesis, and with a byte that is not UTF-8 in place of the last atom. -/
theorem formatSource_unclosed_glued :
    Matched (tokens (Utf8.encode "a(b) é")) ∧ Matched (tokens (Utf8.encode "a(b) " ++ [0xff])) ∧
      formatSource (some (.integer 3)) (some (.integer 2)) (.bytes (Utf8.encode "(ERROR " ++ Utf8.encode "a(b) é" ++
        Utf8.encode ")")) = .ok "(ERROR\n  a\n  (b)\n  é)" ∧
      formatSource (some (.integer 3)) (some (.integer 2)) (.bytes (Utf8.encode "(ERROR " ++
        (Utf8.encode "a(b) " ++ [0xff]) ++ Utf8.encode ")")) = .error (.notUtf8 12 13) := by
  have matched : Matched (tokens (Utf8.encode "a(b) é")) := by decide
  have matched' : Matched (tokens (Utf8.encode "a(b) " ++ [0xff])) := by decide
  have written : formatSource (some (.integer 3)) (some (.integer 2)) (.bytes (Utf8.encode "(" ++
      Utf8.encode "a(b) é")) = .ok "(ERROR\n  a\n  (b)\n  é)" := by
    decide
  have failed : formatSource (some (.integer 3)) (some (.integer 2)) (.bytes (Utf8.encode "(" ++
      (Utf8.encode "a(b) " ++ [0xff]))) = .error (.notUtf8 6 7) := by
    decide
  refine ⟨matched, matched', ?_, ?_⟩
  · rcases formatSource_unclosed matched (by decide : (0 : Int) ≤ 3) (by decide : (0 : Int) ≤ 2) with
      ⟨out, -, same, worded, -⟩ | ⟨start, stop, same, -⟩
    · rw [worded, ← same, written]
    · rw [written] at same
      cases same
  · rcases formatSource_unclosed matched' (by decide : (0 : Int) ≤ 3) (by decide : (0 : Int) ≤ 2) with
      ⟨out, -, same, -⟩ | ⟨start, stop, same, worded⟩
    · rw [failed] at same
      cases same
    · rw [failed] at same
      cases same
      exact worded

end SExprLayout
