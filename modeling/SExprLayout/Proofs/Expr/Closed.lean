import SExprLayout.Expr.Basic
import SExprLayout.Proofs.Source.CharClass

/-!
# Closed expressions

An expression is closed if each of its lists holds exactly one nil, at the end, as a list does that was read from
`(` to `)`.  `normalize` closes all lists of an expression; it leaves closed expressions alone
(`Closed.normalize_eq`), and it keeps the lexemes, which do not depend on where nil stands (`lexemes_normalize`).

An atom is clean if no delimiter occurs in its text, so that it is one token when it is written.
-/

namespace SExprLayout

/-- No delimiter occurs in the atom's text. -/
def Atom.Clean (atom : Atom) : Prop := ∀ c ∈ atom.text.toList, c ∉ delimiters

instance (atom : Atom) : Decidable atom.Clean := List.decidableBAll (· ∉ delimiters) atom.text.toList

theorem Atom.clean_iff {atom : Atom} :
    atom.Clean ↔ ∀ byte ∈ Utf8.encode atom.text, ByteClass.of byte = .ordinary :=
  Utf8.forall_mem_encode_iff.symm

namespace Expr

/-! ### The expressions below an expression -/

mutual

/-- The expressions below an expression, at any depth. -/
def beneath : Expr → List Expr
  | atom _ => []
  | nil => []
  | list children => beneathAll children

/-- The expressions in a row and all below them. -/
def beneathAll : List Expr → List Expr
  | [] => []
  | child :: rest => child :: child.beneath ++ beneathAll rest

end

theorem mem_beneathAll {e : Expr} {children : List Expr} :
    e ∈ beneathAll children ↔ ∃ child ∈ children, e = child ∨ e ∈ child.beneath := by
  induction children with
  | nil => simp [beneathAll]
  | cons child rest ih => simp [beneathAll, ih, or_assoc]

/-! ### Atoms and lexemes -/

mutual

/-- The atoms of an expression, from left to right. -/
def atoms : Expr → List Atom
  | atom a => [a]
  | nil => []
  | list children => atomsAll children

/-- The atoms of expressions in a row. -/
def atomsAll : List Expr → List Atom
  | [] => []
  | child :: rest => child.atoms ++ atomsAll rest

end

mutual

/-- The lexemes that an expression is written in: nil is written as nothing, and every list between parentheses. -/
def lexemes : Expr → List Lexeme
  | atom a => [.atom (Utf8.encode a.text)]
  | nil => []
  | list children => .opening :: lexemesAll children ++ [.closing]

/-- The lexemes of expressions in a row. -/
def lexemesAll : List Expr → List Lexeme
  | [] => []
  | child :: rest => child.lexemes ++ lexemesAll rest

end

/-- All atoms of the expression are clean. -/
def Clean (e : Expr) : Prop := ∀ a ∈ e.atoms, a.Clean

instance (e : Expr) : Decidable e.Clean := List.decidableBAll Atom.Clean e.atoms

theorem lexemesAll_append (before after : List Expr) :
    lexemesAll (before ++ after) = lexemesAll before ++ lexemesAll after := by
  induction before with
  | nil => rfl
  | cons child before ih => rw [List.cons_append, lexemesAll, lexemesAll, ih, List.append_assoc]

theorem mem_atomsAll {a : Atom} {children : List Expr} :
    a ∈ atomsAll children ↔ ∃ child ∈ children, a ∈ child.atoms := by
  induction children with
  | nil => simp [atomsAll]
  | cons child rest ih => simp [atomsAll, ih]

theorem clean_list_iff {children : List Expr} : (list children).Clean ↔ ∀ child ∈ children, child.Clean := by
  simp only [Clean, atoms, mem_atomsAll]
  exact ⟨fun h child mem a ha => h a ⟨child, mem, ha⟩, fun h a ⟨child, mem, ha⟩ => h child mem a ha⟩

/-! ### The closed form -/

/-- Each list in the expression holds exactly one nil, at the end. -/
inductive Closed : Expr → Prop
  | atom (a : Atom) : Closed (atom a)
  | list {children : List Expr} (h : ∀ child ∈ children, Closed child) : Closed (list (children ++ [nil]))

mutual

/-- The expression with nil at the end of each list and nowhere else. -/
def normalize : Expr → Expr
  | atom a => atom a
  | nil => nil
  | list children => list (normalizeAll children ++ [nil])

/-- The closed forms of the expressions in a row that are not nil. -/
def normalizeAll : List Expr → List Expr
  | [] => []
  | child :: rest => if child.isNil then normalizeAll rest else child.normalize :: normalizeAll rest

end

theorem normalizeAll_eq_map (children : List Expr) :
    normalizeAll children = (children.filter (!·.isNil)).map normalize := by
  induction children with
  | nil => rfl
  | cons child rest ih =>
    rw [normalizeAll, ih, List.filter_cons]
    cases child.isNil <;> rfl

theorem normalizeAll_append (before after : List Expr) :
    normalizeAll (before ++ after) = normalizeAll before ++ normalizeAll after := by
  simp only [normalizeAll_eq_map, List.filter_append, List.map_append]

theorem Closed.isNil_eq {e : Expr} (h : e.Closed) : e.isNil = false := by
  cases h <;> rfl

private theorem normalizeAll_eq_self {children : List Expr} (closed : ∀ child ∈ children, child.Closed)
    (same : ∀ child ∈ children, child.normalize = child) : normalizeAll children = children := by
  have filtered : children.filter (!·.isNil) = children := by
    rw [List.filter_eq_self]
    intro child mem
    rw [(closed child mem).isNil_eq]
    rfl
  rw [normalizeAll_eq_map, filtered, List.map_congr_left same, List.map_id']

/-- A closed expression is its own closed form. -/
theorem Closed.normalize_eq {e : Expr} (h : e.Closed) : e.normalize = e := by
  induction h with
  | atom a => rfl
  | @list children h ih =>
    rw [normalize, normalizeAll_append, normalizeAll_eq_self h ih, show normalizeAll [nil] = [] from rfl,
      List.append_nil]

/-- Closed expressions in a list without a nil of its own gain one at the end. -/
theorem normalize_list_of_closed {children : List Expr} (closed : ∀ child ∈ children, child.Closed) :
    (list children).normalize = list (children ++ [nil]) := by
  rw [normalize, normalizeAll_eq_self closed fun child mem => (closed child mem).normalize_eq]

mutual

/-- The closed form of anything but a bare nil is closed. -/
theorem closed_normalize (e : Expr) (h : e ≠ nil) : e.normalize.Closed := by
  match e with
  | atom a => exact .atom a
  | list children => exact .list (closed_of_mem_normalizeAll children)

theorem closed_of_mem_normalizeAll (children : List Expr) : ∀ child ∈ normalizeAll children, child.Closed := by
  match children with
  | [] => nofun
  | child :: rest =>
    have later := closed_of_mem_normalizeAll rest
    rw [normalizeAll]
    split
    · exact later
    · rename_i h
      rw [List.forall_mem_cons]
      exact ⟨closed_normalize child fun e => h (isNil_iff.2 e), later⟩

end

mutual

theorem lexemes_normalize (e : Expr) : e.normalize.lexemes = e.lexemes := by
  match e with
  | atom a => rfl
  | nil => rfl
  | list children =>
    rw [normalize, lexemes, lexemesAll_append, lexemesAll_normalizeAll children, lexemes]
    simp [lexemesAll, lexemes]

theorem lexemesAll_normalizeAll (children : List Expr) :
    lexemesAll (normalizeAll children) = lexemesAll children := by
  match children with
  | [] => rfl
  | child :: rest =>
    rw [normalizeAll]
    split
    · rename_i h
      rw [lexemesAll_normalizeAll rest, isNil_iff.1 h]
      rfl
    · rw [lexemesAll, lexemes_normalize child, lexemesAll_normalizeAll rest, lexemesAll]

end

end Expr

end SExprLayout
