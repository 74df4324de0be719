import SExprLayout.Proofs.Source.Matching
import SExprLayout.Proofs.RoundTrip

/-!
# What formatting keeps

The nodes of balanced tokens are read as expressions that are written in the lexemes of these tokens
(`lexemesAll_of_ofAll`), and so is the first expression of a source, unless it was recovered: then it has a heading in
place of its first token, and parentheses around it (`lexemes_of_ofNode_first`).  Since a layout is scanned as the
lexemes of its expression, formatting changes nothing but blanks (`formatSource_tokens`).
-/

namespace SExprLayout

namespace Expr

/-- Balanced tokens of a source are read as expressions that are written in the lexemes of the tokens. -/
theorem lexemesAll_of_ofAll {source : List UInt8} {ts : List Token} {nodes : List Node} (h : Balanced ts nodes)
    (mem : ∀ token ∈ ts, token ∈ tokens source) {es : List Expr} (ok : ofAll source nodes = .ok es) :
    lexemesAll es = ts.map Token.lexeme := by
  induction h generalizing es with
  | nil =>
    cases ok
    rfl
  | @atom token bytes ts nodes lexeme _ ih =>
    rw [List.forall_mem_cons] at mem
    obtain ⟨first, rest, made, others, rfl⟩ := ofAll_cons_eq_ok_iff.1 ok
    obtain ⟨a, encoded, rfl⟩ := (ofNode_leaf_eq_ok_iff mem.1 lexeme).1 made
    rw [lexemesAll, ih mem.2 others, List.map_cons, lexeme, lexemes, encoded, List.singleton_append]
  | @list first last inner ts items nodes opens _ closes _ ihInside ih =>
    simp only [List.cons_append, List.forall_mem_cons, List.forall_mem_append] at mem
    obtain ⟨e, rest, made, others, rfl⟩ := ofAll_cons_eq_ok_iff.1 ok
    obtain ⟨es, inside, rfl⟩ := (ofNode_closed_eq_ok_iff closes).1 made
    rw [lexemesAll, ih mem.2.2.2 others, lexemes, lexemesAll_append, ihInside mem.2.1 inside]
    simp [lexemesAll, lexemes, opens, closes]

private theorem lexemes_recovered (es : List Expr) :
    (list (heading .error ++ es)).lexemes =
      .opening :: .atom (Utf8.encode "ERROR") :: lexemesAll es ++ [.closing] := rfl

/-- The first expression of a source is written in the lexemes of its node, but for the heading and the parentheses of
a recovered one. -/
theorem lexemes_of_ofNode_first {source : List UInt8} {first : Node} {rest : List Node} {e : Expr}
    (h : Node.forest (tokens source) = first :: rest) (made : ofNode source first = .ok e) :
    (first.kind = .atom ∨ first.kind = .list) ∧ e.lexemes = (first.tokensInside source).map Token.lexeme ∨
      first.kind = .error ∧ e.lexemes = .opening :: .atom (Utf8.encode "ERROR") ::
        (first.tokensInside source).tail.map Token.lexeme ++ [.closing] := by
  obtain ⟨later, split, isFirst⟩ := tokensInside_first h
  have mem : ∀ token ∈ first.tokensInside source, token ∈ tokens source := by
    intro token inside
    rw [split]
    exact List.mem_append_left _ inside
  generalize first.tokensInside source = ts at isFirst mem
  cases isFirst with
  | complete balanced =>
    have single : ofAll source [first] = .ok [e] := ofAll_cons_eq_ok_iff.2 ⟨e, [], made, rfl, rfl⟩
    have spelled := lexemesAll_of_ofAll balanced mem single
    rw [lexemesAll, lexemesAll, List.append_nil] at spelled
    exact .inl ⟨balanced.kind_of_mem first List.mem_cons_self, spelled⟩
  | stray =>
    obtain ⟨es, none, rfl⟩ := (ofNode_spanning_eq_ok_iff (.inr rfl)).1 made
    cases none
    exact .inr ⟨rfl, lexemes_recovered []⟩
  | unclosed unclosed =>
    obtain ⟨es, others, rfl⟩ := (ofNode_spanning_eq_ok_iff (.inr rfl)).1 made
    have behind : ∀ token ∈ ts.tail, token ∈ tokens source := fun token h => mem token (List.mem_of_mem_tail h)
    refine .inr ⟨rfl, ?_⟩
    rw [lexemes_recovered, lexemesAll_of_ofAll (balanced_of_unclosed unclosed others) behind others]

end Expr

/-- Formatting a source keeps the tokens of its first top-level node and changes nothing but the blanks.  Of an error,
the first token gives way to a parenthesis and the word `ERROR`, and a parenthesis ends it. -/
theorem formatSource_tokens {source : Argument} {e : Expr} (read : Expr.ofArgument source = .ok e)
    {maxWidth indentSize : Int} (hw : 0 ≤ maxWidth) (hi : 0 ≤ indentSize) :
    ∃ out bytes root first rest,
      formatSource (some (.integer maxWidth)) (some (.integer indentSize)) source = .ok out ∧
      Node.ofArgument source = .ok (bytes, root) ∧ root.children = first :: rest ∧
      ((first.kind = .atom ∨ first.kind = .list) ∧
          (tokens (Utf8.encode out)).map Token.bytes = (first.tokensInside bytes).map Token.bytes ∨
        first.kind = .error ∧
          (tokens (Utf8.encode out)).map Token.bytes = [0x28] :: Utf8.encode "ERROR" ::
            (first.tokensInside bytes).tail.map Token.bytes ++ [[0x29]]) := by
  obtain ⟨bytes, isSource, parsed⟩ := Expr.ofArgument_eq_ok_iff.1 read
  obtain ⟨first, rest, forest, made⟩ := Expr.parse_eq_ok_iff.1 parsed
  have clean : e.Clean := (Expr.ofNode_first forest made).1
  have scanned : (tokens (Utf8.encode (e.format ⟨maxWidth, indentSize⟩))).map Token.bytes =
      e.lexemes.map Lexeme.bytes := by
    rw [← Expr.lexemes_tokens_format clean, List.map_map]
    rfl
  have texts : ∀ ts : List Token, ts.map Token.bytes = (ts.map Token.lexeme).map Lexeme.bytes := by
    intro ts
    rw [List.map_map]
    rfl
  refine ⟨e.format ⟨maxWidth, indentSize⟩, bytes, ⟨.root, 0, bytes.length, first :: rest⟩, first, rest, ?_, ?_, rfl, ?_⟩
  · rw [formatSource_integer hw hi, read]
    rfl
  · rw [Node.ofArgument, isSource]
    simp [bind, Except.bind, pure, Except.pure, Node.read_eq_ok forest]
  · rcases Expr.lexemes_of_ofNode_first forest made with ⟨kind, spelled⟩ | ⟨kind, spelled⟩
    · refine .inl ⟨kind, ?_⟩
      rw [scanned, spelled, texts]
    · refine .inr ⟨kind, ?_⟩
      rw [scanned, spelled, texts]
      simp [Lexeme.bytes]

theorem formatSource_tokens_unclosed :
    ∃ out, formatSource (some (.integer 3)) (some (.integer 2)) (.text "(a(b c)\n é") = .ok out ∧
      (tokens (Utf8.encode out)).map Token.bytes =
        [[0x28], Utf8.encode "ERROR", [0x61], [0x28], [0x62], [0x63], [0x29], Utf8.encode "é", [0x29]] := by
  have read : Expr.ofArgument (.text "(a(b c)\n é") = .ok (.list [.atom ⟨"ERROR", by decide⟩, .atom ⟨"a", by decide⟩,
      .list [.atom ⟨"b", by decide⟩, .atom ⟨"c", by decide⟩, .nil], .atom ⟨"é", by decide⟩]) := by
    decide
  obtain ⟨out, bytes, root, first, rest, formatted, isRoot, children, kept⟩ :=
    formatSource_tokens read (by decide : (0 : Int) ≤ 3) (by decide : (0 : Int) ≤ 2)
  refine ⟨out, formatted, ?_⟩
  cases isRoot
  cases children
  rcases kept with ⟨kind | kind, -⟩ | ⟨-, kept⟩
  · cases kind
  · cases kind
  · rw [kept]
    decide +kernel

end SExprLayout
