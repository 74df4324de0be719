import SExprLayout.Format
import SExprLayout.Proofs.Expr.Parsed
import SExprLayout.Proofs.Layout.Content

/-!
# Reading back what was written

An expression with clean atoms that is not a bare nil is read back from its layout in closed form, whatever the
settings were (`ofArgument_text_format`): a layout is scanned as the lexemes of the expression, these are the lexemes
of the closed form, and tokens that spell a closed expression are read as that expression.

What a source is read as has clean atoms and is closed, except that a recovered list lacks its nil
(`Expr.ofNode_first`).  A nil at the end of a list does not show in its layout (`pieces_concat_nil`), so formatting a
source and then the result with other settings is the same as formatting the source with these
(`formatSource_formatSource`).
-/

namespace SExprLayout

namespace Expr

/-- Reading a layout gives the closed form of the expression. -/
theorem parse_encode_format {e : Expr} (notNil : e ≠ nil) (clean : e.Clean) (settings : Settings) :
    parse (Utf8.encode (e.format settings)) = .ok e.normalize := by
  have spelling : (tokens (Utf8.encode (e.format settings))).map Token.lexeme = e.normalize.lexemes := by
    rw [lexemes_tokens_format clean, lexemes_normalize]
  obtain ⟨node, balanced, made⟩ := (closed_normalize e notNil).exists_node (fun _ h => h) spelling
  exact parse_eq_ok_iff.2 ⟨node, [], balanced.forest_eq, made⟩

/-- An expression with clean atoms is read back from any of its layouts in closed form, and as itself if it is
closed. -/
theorem ofArgument_text_format {e : Expr} (notNil : e ≠ nil) (clean : e.Clean) (settings : Settings) :
    ofArgument (.text (e.format settings)) = .ok e.normalize ∧
      (e.Closed → ofArgument (.text (e.format settings)) = .ok e) := by
  have read : ofArgument (.text (e.format settings)) = .ok e.normalize := parse_encode_format notNil clean settings
  refine ⟨read, ?_⟩
  intro closed
  rw [read, closed.normalize_eq]

theorem ofArgument_text_format_scattered :
    ofArgument (.text (format ⟨-7, -1⟩
      (list [nil, atom ⟨"b", by decide⟩, list [], nil, list [atom ⟨"λx", by decide⟩]]))) =
      .ok (list [atom ⟨"b", by decide⟩, list [nil], list [atom ⟨"λx", by decide⟩, nil], nil]) :=
  (ofArgument_text_format (by decide) (by decide +kernel) ⟨-7, -1⟩).1

/-! ### A nil at the end of a list -/

/-- A nil at the end of a list that has other children is written as nothing. -/
theorem pieces_concat_nil (settings : Settings) (first : Expr) (rest : List Expr) :
    pieces settings (list (first :: rest ++ [nil])) = pieces settings (list (first :: rest)) := by
  have size : sizeAll (first :: rest ++ [nil]) = sizeAll (first :: rest) := by
    rw [sizeAll_append]
    rfl
  rw [List.cons_append] at size ⊢
  rw [pieces, layout, layoutRest_append, size, pieces, layout]
  simp [layoutRest, layout, separator, isNil]

/-- The closed form of a recovered list has one nil more. -/
private theorem normalize_recovered {es : List Expr} (closed : ∀ e ∈ es, e.Closed) :
    (list (heading .error ++ es)).normalize = list (heading .error ++ es ++ [nil]) := by
  apply normalize_list_of_closed
  rw [List.forall_mem_append]
  exact ⟨List.forall_mem_singleton.2 (.atom _), closed⟩

/-- The first expression of a source is laid out as its closed form is. -/
private theorem format_normalize {source : List UInt8} {first : Node} {rest : List Node} {e : Expr}
    (h : Node.forest (tokens source) = first :: rest) (made : ofNode source first = .ok e) (settings : Settings) :
    format settings e.normalize = format settings e := by
  rcases (ofNode_first h made).2 with ⟨-, closed⟩ | ⟨-, es, closed, rfl⟩
  · rw [closed.normalize_eq]
  · rw [normalize_recovered closed, format, format, writes, writes]
    exact congrArg (fun pieces => String.join (pieces.flatMap Piece.writes)) (pieces_concat_nil settings _ es)

theorem ofArgument_eq_ok_iff {source : Argument} {e : Expr} :
    ofArgument source = .ok e ↔ ∃ bytes, source.toSource = .ok bytes ∧ parse bytes = .ok e := by
  unfold ofArgument
  cases source.toSource <;> simp [bind, Except.bind]

end Expr

/-- Formatting a source and then the result succeeds if the source can be read, and gives what formatting the source
with the later settings gives.  The result is read as the same expression, unless the source begins with an error:
then it gains a nil at the end. -/
theorem formatSource_formatSource {source : Argument} {e : Expr} (read : Expr.ofArgument source = .ok e)
    {maxWidth indentSize maxWidth' indentSize' : Int} (hw : 0 ≤ maxWidth) (hi : 0 ≤ indentSize)
    (hw' : 0 ≤ maxWidth') (hi' : 0 ≤ indentSize') :
    ∃ once twice,
      formatSource (some (.integer maxWidth)) (some (.integer indentSize)) source = .ok once ∧
      formatSource (some (.integer maxWidth')) (some (.integer indentSize')) (.text once) = .ok twice ∧
      formatSource (some (.integer maxWidth')) (some (.integer indentSize')) source = .ok twice ∧
      ∃ bytes root first rest, Node.ofArgument source = .ok (bytes, root) ∧ root.children = first :: rest ∧
        (first.kind ≠ .error → Expr.ofArgument (.text once) = .ok e) ∧
        (first.kind = .error → ∃ children, e = .list children ∧
          Expr.ofArgument (.text once) = .ok (.list (children ++ [.nil]))) := by
  obtain ⟨bytes, isSource, parsed⟩ := Expr.ofArgument_eq_ok_iff.1 read
  obtain ⟨first, rest, forest, made⟩ := Expr.parse_eq_ok_iff.1 parsed
  obtain ⟨clean, shape⟩ := Expr.ofNode_first forest made
  have notNil : e ≠ .nil := by
    rcases shape with ⟨-, closed⟩ | ⟨-, es, -, rfl⟩
    · rintro rfl
      cases closed
    · nofun
  have again : Expr.ofArgument (.text (e.format ⟨maxWidth, indentSize⟩)) = .ok e.normalize :=
    Expr.parse_encode_format notNil clean _
  refine ⟨e.format ⟨maxWidth, indentSize⟩, e.format ⟨maxWidth', indentSize'⟩, ?_, ?_, ?_,
    bytes, ⟨.root, 0, bytes.length, first :: rest⟩, first, rest, ?_, rfl, ?_, ?_⟩
  · rw [formatSource_integer hw hi, read]
    rfl
  · rw [formatSource_integer hw' hi', again, Except.map, Expr.format_normalize forest made]
  · rw [formatSource_integer hw' hi', read]
    rfl
  · rw [Node.ofArgument, isSource]
    simp [bind, Except.bind, pure, Except.pure, Node.read_eq_ok forest]
  · intro regular
    rcases shape with ⟨-, closed⟩ | ⟨recovered, -⟩
    · rw [again, closed.normalize_eq]
    · exact absurd recovered regular
  · intro recovered
    rcases shape with ⟨regular, -⟩ | ⟨-, es, closed, rfl⟩
    · exact absurd recovered regular
    · refine ⟨_, rfl, ?_⟩
      rw [again, Expr.normalize_recovered closed]

theorem formatSource_formatSource_unclosed :
    ∃ once twice,
      formatSource (some (.integer 3)) (some (.integer 2)) (.text "(a (é) b") = .ok once ∧
      formatSource (some (.integer 80)) (some (.integer 1)) (.text once) = .ok twice ∧
      formatSource (some (.integer 80)) (some (.integer 1)) (.text "(a (é) b") = .ok twice := by
  have read : Expr.ofArgument (.text "(a (é) b") = .ok (.list [.atom ⟨"ERROR", by decide⟩, .atom ⟨"a", by decide⟩,
      .list [.atom ⟨"é", by decide⟩, .nil], .atom ⟨"b", by decide⟩]) := by
    decide
  obtain ⟨once, twice, first, second, direct, -⟩ :=
    formatSource_formatSource read (by decide : (0 : Int) ≤ 3) (by decide : (0 : Int) ≤ 2)
      (by decide : (0 : Int) ≤ 80) (by decide : (0 : Int) ≤ 1)
  exact ⟨once, twice, first, second, direct⟩

end SExprLayout
