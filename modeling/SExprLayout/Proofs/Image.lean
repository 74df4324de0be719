import SExprLayout.Proofs.Recovered

/-!
# Which expressions are read from a source

What is read from a source has clean atoms, and it is closed, or it is the word `ERROR` with closed expressions behind
it and no nil of its own.  Every such expression is read from some source: a closed one from any of its layouts, and
the other kind from a parenthesis that is never closed, with the layouts of the closed expressions on one line behind
it (`exists_ofArgument_eq_ok_iff`).
-/

namespace SExprLayout.Expr

/-! ### Where nil stands -/

/-- In each list of a closed expression, at any depth, there is exactly one nil, at the end. -/
theorem Closed.exists_eq_concat {e : Expr} (h : e.Closed) {children : List Expr}
    (mem : Expr.list children = e ∨ Expr.list children ∈ e.beneath) :
    ∃ inner, children = inner ++ [nil] ∧ nil ∉ inner := by
  induction h with
  | atom a => rcases mem with mem | mem <;> cases mem
  | @list inner closed ih =>
    rcases mem with e | mem
    · cases e
      refine ⟨inner, rfl, fun mem => ?_⟩
      cases closed nil mem
    · obtain ⟨child, isChild, among⟩ := mem_beneathAll.1 mem
      rcases List.mem_append.1 isChild with isChild | isLast
      · exact ih child isChild among
      · rw [List.mem_singleton.1 isLast] at among
        rcases among with e | among
        · cases e
        · cases among

/-! ### What is read, and from which source -/

private theorem shape_of_ofArgument {source : Argument} {e : Expr} (read : ofArgument source = .ok e) :
    e.Clean ∧ (e.Closed ∨ ∃ es, (∀ child ∈ es, child.Closed) ∧ e = list (heading .error ++ es)) := by
  obtain ⟨bytes, -, parsed⟩ := ofArgument_eq_ok_iff.1 read
  obtain ⟨first, rest, forest, made⟩ := parse_eq_ok_iff.1 parsed
  obtain ⟨clean, ⟨-, closed⟩ | ⟨-, recovered⟩⟩ := ofNode_first forest made
  · exact ⟨clean, .inl closed⟩
  · exact ⟨clean, .inr recovered⟩

/-- A closed expression with clean atoms is read from its layout. -/
private theorem Closed.parse_encode_format {e : Expr} (closed : e.Closed) (clean : e.Clean) (settings : Settings) :
    parse (Utf8.encode (e.format settings)) = .ok e := by
  have notNil : e ≠ nil := by
    rintro rfl
    cases closed
  rw [Expr.parse_encode_format notNil clean, closed.normalize_eq]

/-- Closed expressions with clean atoms are read behind a parenthesis that is never closed. -/
private theorem parse_opening_flatRest {es : List Expr} (closed : ∀ child ∈ es, child.Closed)
    (clean : ∀ child ∈ es, child.Clean) :
    parse (0x28 :: Utf8.encode (Piece.textAll (flatRest es))) = .ok (list (heading .error ++ es)) := by
  have atoms : ∀ a ∈ (flatRest es).flatMap Piece.atoms, a.Clean := by
    rw [atoms_flatRest]
    intro a mem
    obtain ⟨child, isChild, isAtom⟩ := mem_atomsAll.1 mem
    exact clean child isChild a isAtom
  have spelling : (tokens (Utf8.encode (Piece.textAll (flatRest es)))).map Token.lexeme = lexemesAll es := by
    rw [tokens, Piece.lexemes_scan_textAll (isChain_apart_flatRest es) atoms, lexemes_flatRest]
  obtain ⟨nodes, balanced, made⟩ := exists_nodes_of_closed closed (fun _ mem => mem) spelling
  rw [parse_unclosed balanced, made]
  rfl

/-- An expression is read from some source if and only if its atoms are clean and it is closed, or the word `ERROR` and
closed expressions behind it.  So nothing that is read is nil or a list without children, and in each list below it
there is exactly one nil, at the end. -/
theorem exists_ofArgument_eq_ok_iff {e : Expr} :
    ((∃ source, ofArgument source = .ok e) ↔
      e.Clean ∧ (e.Closed ∨ ∃ es, (∀ child ∈ es, child.Closed) ∧ e = list (atom ⟨"ERROR", by decide⟩ :: es))) ∧
    ∀ source, ofArgument source = .ok e →
      e ≠ nil ∧ e ≠ list [] ∧
        ∀ children, list children ∈ e.beneath → ∃ inner, children = inner ++ [nil] ∧ nil ∉ inner := by
  refine ⟨⟨fun ⟨source, read⟩ => shape_of_ofArgument read, ?_⟩, fun source read => ?_⟩
  · rintro ⟨clean, closed | ⟨es, closed, rfl⟩⟩
    · exact ⟨.text (e.format Settings.default), closed.parse_encode_format clean Settings.default⟩
    · have behind : ∀ child ∈ es, child.Clean := (List.forall_mem_cons.1 (clean_list_iff.1 clean)).2
      exact ⟨.bytes (0x28 :: Utf8.encode (Piece.textAll (flatRest es))), parse_opening_flatRest closed behind⟩
  · obtain ⟨-, closed | ⟨es, closed, rfl⟩⟩ := shape_of_ofArgument read
    · refine ⟨?_, ?_, fun children mem => closed.exists_eq_concat (.inr mem)⟩
      · rintro rfl
        cases closed
      · rintro rfl
        obtain ⟨inner, none, -⟩ := closed.exists_eq_concat (.inl rfl)
        exact List.append_ne_nil_of_right_ne_nil inner (List.cons_ne_nil nil []) none.symm
    · refine ⟨nofun, nofun, fun children mem => ?_⟩
      have each : ∀ child ∈ heading .error ++ es, child.Closed :=
        List.forall_mem_append.2 ⟨List.forall_mem_singleton.2 (.atom _), closed⟩
      obtain ⟨child, isChild, among⟩ := mem_beneathAll.1 mem
      exact (each child isChild).exists_eq_concat among

/-- The word `ERROR` and the closed list of `é` behind it are read from some source; without its nil the list of `é` is
read from none. -/
theorem exists_ofArgument_eq_ok_iff_recovered :
    (∃ source, ofArgument source = .ok (list [atom ⟨"ERROR", by decide⟩, list [atom ⟨"é", by decide⟩, nil]]) ∧
      ∃ inner, [atom ⟨"é", by decide⟩, nil] = inner ++ [nil] ∧ nil ∉ inner) ∧
    ¬∃ source, ofArgument source = .ok (list [atom ⟨"é", by decide⟩]) := by
  constructor
  · have closed : ∀ child ∈ [list [atom ⟨"é", by decide⟩, nil]], child.Closed :=
      List.forall_mem_singleton.2 (.list (List.forall_mem_singleton.2 (.atom ⟨"é", by decide⟩)))
    obtain ⟨source, read⟩ := exists_ofArgument_eq_ok_iff.1.2 ⟨by decide +kernel, .inr ⟨_, closed, rfl⟩⟩
    exact ⟨source, read, (exists_ofArgument_eq_ok_iff.2 source read).2.2 _ (by decide)⟩
  · intro made
    obtain ⟨-, closed | ⟨es, -, e⟩⟩ := exists_ofArgument_eq_ok_iff.1.1 made
    · obtain ⟨inner, e, -⟩ := closed.exists_eq_concat (.inl rfl)
      have last := congrArg List.getLast? e
      simp at last
    · simp at e

end SExprLayout.Expr
