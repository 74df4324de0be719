import SExprLayout.Format
import SExprLayout.Proofs.Expr.Alike
import SExprLayout.Proofs.Expr.Fault
import SExprLayout.Proofs.Source.Correspondence

/-!
# Blanks make no difference

Two sources with the same tokens in the same order may have other blanks between them, and so the tokens stand
elsewhere.  The trees of such sources have the same shape, token for token.  Nodes in the same place of both trees are
read alike, so the sources are parsed as the same expression and formatted as the same text, or both fail for the same
reason; if it is an atom that is not UTF-8, it is the same atom (`formatSource_of_lexemes`).
-/

namespace SExprLayout

/-- The tokens have the same number in their sources. -/
def SameNumber (source source' : List UInt8) (token token' : Token) : Prop :=
  ∃ i : Nat, (tokens source)[i]? = some token ∧ (tokens source')[i]? = some token'

/-- The errors are the same and no atom's positions are reported, or those of atoms with the same number are. -/
private inductive SameCause (source source' : List UInt8) : Error → Error → Prop
  | same {error : Error} (h : ∀ start stop, error ≠ .notUtf8 start stop) : SameCause source source' error error
  | notUtf8 {token token' : Token} (h : SameNumber source source' token token') :
      SameCause source source' (.notUtf8 token.start token.stop) (.notUtf8 token'.start token'.stop)

section

variable {source source' : List UInt8} (same : (tokens source).map Token.lexeme = (tokens source').map Token.lexeme)

include same

theorem SameNumber.lexeme {token token' : Token} (h : SameNumber source source' token token') :
    token.lexeme = token'.lexeme := by
  obtain ⟨i, first, second⟩ := h
  have entry := congrArg (fun lexemes : List Lexeme => lexemes[i]?) same
  simp only [List.getElem?_map, first, second, Option.map_some] at entry
  exact Option.some.inj entry

private theorem forall₂_sameNumber : List.Forall₂ (SameNumber source source') (tokens source) (tokens source') := by
  have length : (tokens source).length = (tokens source').length := by
    simpa only [List.length_map] using congrArg List.length same
  exact List.forall₂_iff_get.2 ⟨length, fun i h h' => ⟨i, List.getElem?_eq_getElem h, List.getElem?_eq_getElem h'⟩⟩

private theorem forest_corresponds_of_lexemes :
    List.Forall₂ (Node.Corresponds (SameNumber source source')) (Node.forest (tokens source))
      (Node.forest (tokens source')) :=
  Node.forest_corresponds (fun _ _ h => h.lexeme same) (forall₂_sameNumber same)

/-- Nodes that correspond look the same, because their leaves are tokens that spell the same. -/
private theorem likeness_of_lexemes :
    Likeness source source' (Node.Corresponds (SameNumber source source')) (SameCause source source') where
  kind := by
    intro node node' h
    cases h with
    | leaf h => rw [Node.leaf, Node.leaf, h.lexeme same]
    | branch => rfl
  text := by
    intro node node' h isAtom
    cases h with
    | leaf h =>
      obtain ⟨i, first, second⟩ := h
      rw [Node.text_leaf (List.mem_of_getElem? first), Node.text_leaf (List.mem_of_getElem? second), Token.bytes,
        Token.bytes, SameNumber.lexeme same ⟨i, first, second⟩]
    | branch inner => exact absurd isAtom inner
  notUtf8 := by
    intro node node' h isAtom
    cases h with
    | leaf h => exact .notUtf8 h
    | branch inner => exact absurd isAtom inner
  emptyAtom := .same nofun
  unknownKind _ := .same nofun
  inner := by
    intro node node' h isList
    cases h with
    | leaf => exact .nil
    | branch _ _ others => exact others

/-- Two sources with the same tokens are parsed as the same expression, or both fail for the same reason. -/
private theorem parse_sameOutcome :
    SameOutcome (SameCause source source') (Expr.parse source) (Expr.parse source') := by
  have trees := forest_corresponds_of_lexemes same
  rw [Expr.parse_eq, Expr.parse_eq]
  generalize Node.forest (tokens source) = nodes, Node.forest (tokens source') = nodes' at trees
  cases trees with
  | nil => exact .error (.same nofun)
  | cons first _ => exact (likeness_of_lexemes same).ofNode _ first

private theorem read_of_lexemes :
    (Node.read source = .error .nothingToParse ∧ Node.read source' = .error .nothingToParse) ∨
      ∃ root root', Node.read source = .ok root ∧ Node.read source' = .ok root' ∧
        root.Corresponds (SameNumber source source') root' := by
  have trees := forest_corresponds_of_lexemes same
  by_cases empty : tokens source = []
  · have empty' : tokens source' = [] := by
      rw [empty] at same
      exact List.map_eq_nil_iff.1 same.symm
    exact .inl ⟨by rw [Node.read, empty], by rw [Node.read, empty']⟩
  · obtain ⟨first, rest, forest⟩ := List.exists_cons_of_ne_nil (Node.forest_ne_nil empty)
    rw [forest] at trees
    obtain ⟨first', rest', one, others, forest'⟩ := List.forall₂_cons_left_iff.1 trees
    have notAtom : Kind.root ≠ .atom := by decide
    exact .inr ⟨_, _, Node.read_eq_ok forest, Node.read_eq_ok forest', .branch notAtom one others⟩

end

/-- Sources with the same tokens have trees of the same shape, in which the leaves in the same place are tokens with the
same number, unless there is nothing to parse in either.  They are parsed as the same expression, or both fail for the
same reason, and if it is an atom that is not UTF-8, it is the atom with the same number in both.  So formatting them
with the same settings has the same outcome, except for the positions of such an atom. -/
theorem formatSource_of_lexemes {source source' : List UInt8}
    (same : (tokens source).map Token.lexeme = (tokens source').map Token.lexeme) :
    ((Node.read source = .error .nothingToParse ∧ Node.read source' = .error .nothingToParse) ∨
      ∃ root root', Node.read source = .ok root ∧ Node.read source' = .ok root' ∧
        root.Corresponds (SameNumber source source') root') ∧
    ((∃ e, Expr.parse source = .ok e ∧ Expr.parse source' = .ok e) ∨
      (Expr.parse source = .error .nothingToParse ∧ Expr.parse source' = .error .nothingToParse) ∨
      (Expr.parse source = .error (.unknownKind .opening) ∧ Expr.parse source' = .error (.unknownKind .opening)) ∨
      ∃ token token', SameNumber source source' token token' ∧
        Expr.parse source = .error (.notUtf8 token.start token.stop) ∧
        Expr.parse source' = .error (.notUtf8 token'.start token'.stop)) ∧
    ∀ maxWidth indentSize : Option Argument,
      formatSource maxWidth indentSize (.bytes source) = formatSource maxWidth indentSize (.bytes source') ∨
      ∃ token token', SameNumber source source' token token' ∧
        formatSource maxWidth indentSize (.bytes source) = .error (.notUtf8 token.start token.stop) ∧
        formatSource maxWidth indentSize (.bytes source') = .error (.notUtf8 token'.start token'.stop) := by
  have outcome := parse_sameOutcome same
  refine ⟨read_of_lexemes same, ?_, fun maxWidth indentSize => ?_⟩
  · have cause {error : Error} : Expr.parse source = .error error → _ := Expr.cause_of_parse_error
    generalize Expr.parse source = parsed, Expr.parse source' = parsed' at outcome cause
    cases outcome with
    | ok e => exact .inl ⟨e, rfl, rfl⟩
    | error related =>
      cases related with
      | notUtf8 h => exact .inr (.inr (.inr ⟨_, _, h, rfl, rfl⟩))
      | same other =>
        rcases cause rfl with rfl | rfl | ⟨start, stop, e⟩
        · exact .inr (.inl ⟨rfl, rfl⟩)
        · exact .inr (.inr (.inl ⟨rfl, rfl⟩))
        · exact absurd e (other start stop)
  · cases checked : Settings.ofArguments maxWidth indentSize with
    | error error =>
      rw [formatSource, formatSource, checked]
      exact .inl rfl
    | ok settings =>
      have written : SameOutcome (SameCause source source') (formatSource maxWidth indentSize (.bytes source))
          (formatSource maxWidth indentSize (.bytes source')) := by
        rw [formatSource_of_settings checked, formatSource_of_settings checked]
        exact outcome.map (Expr.format settings)
      generalize formatSource maxWidth indentSize (.bytes source) = text,
        formatSource maxWidth indentSize (.bytes source') = text' at written
      cases written with
      | ok text => exact .inl rfl
      | error related =>
        cases related with
        | same => exact .inl rfl
        | notUtf8 h => exact .inr ⟨_, _, h, rfl, rfl⟩

/-- The source `(a(b)?` and the same tokens among other blanks, where the question mark stands for a byte that is not
UTF-8. -/
theorem formatSource_of_lexemes_scattered :
    (tokens [0x28, 0x61, 0x28, 0x62, 0x29, 0xff]).map Token.lexeme =
        (tokens [0x0c, 0x28, 0x20, 0x61, 0x0b, 0x0a, 0x28, 0x62, 0x09, 0x29, 0x20, 0xff, 0x0d]).map Token.lexeme ∧
      ∃ token token', SameNumber [0x28, 0x61, 0x28, 0x62, 0x29, 0xff]
          [0x0c, 0x28, 0x20, 0x61, 0x0b, 0x0a, 0x28, 0x62, 0x09, 0x29, 0x20, 0xff, 0x0d] token token' ∧
        Expr.parse [0x28, 0x61, 0x28, 0x62, 0x29, 0xff] = .error (.notUtf8 token.start token.stop) ∧
        Expr.parse [0x0c, 0x28, 0x20, 0x61, 0x0b, 0x0a, 0x28, 0x62, 0x09, 0x29, 0x20, 0xff, 0x0d] =
          .error (.notUtf8 token'.start token'.stop) ∧
        token.start = 5 ∧ token'.start = 11 := by
  have same : (tokens [0x28, 0x61, 0x28, 0x62, 0x29, 0xff]).map Token.lexeme =
      (tokens [0x0c, 0x28, 0x20, 0x61, 0x0b, 0x0a, 0x28, 0x62, 0x09, 0x29, 0x20, 0xff, 0x0d]).map Token.lexeme := by
    decide
  have failed : Expr.parse [0x28, 0x61, 0x28, 0x62, 0x29, 0xff] = .error (.notUtf8 5 6) := by decide
  have failed' : Expr.parse [0x0c, 0x28, 0x20, 0x61, 0x0b, 0x0a, 0x28, 0x62, 0x09, 0x29, 0x20, 0xff, 0x0d] =
      .error (.notUtf8 11 12) := by
    decide
  refine ⟨same, ?_⟩
  rcases (formatSource_of_lexemes same).2.1 with
    ⟨e, parsed, -⟩ | ⟨parsed, -⟩ | ⟨parsed, -⟩ | ⟨token, token', h, parsed, parsed'⟩
  · cases failed.symm.trans parsed
  · cases failed.symm.trans parsed
  · cases failed.symm.trans parsed
  · have starts := failed.symm.trans parsed
    have starts' := failed'.symm.trans parsed'
    simp only [Except.error.injEq, Error.notUtf8.injEq] at starts starts'
    exact ⟨token, token', h, parsed, parsed', by omega, by omega⟩

end SExprLayout
