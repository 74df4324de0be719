import SExprLayout.Error

/-!
# Expressions

An expression is an atom, a list of expressions, or nil.  Nil stands for a bare closing parenthesis: a list read
from a source ends in one, and it is written as nothing.  Expressions made by hand may hold nil anywhere.  An atom
has a text that is never empty and may hold any characters.

The size of an expression is the number of characters in its atoms; parentheses, blanks and line ends do not count.
Equality of expressions is decided by structure.
-/

namespace SExprLayout

/-- A text that is not taken apart. -/
structure Atom where
  text : String
  nonempty : text ≠ ""
  deriving DecidableEq

namespace Atom

/-- The atom of a text, which must not be empty. -/
def ofText (text : String) : Except Error Atom :=
  if h : text = "" then .error .emptyAtom else .ok ⟨text, h⟩

/-- The number of characters of an atom. -/
def length (atom : Atom) : Nat := atom.text.length

theorem ofText_text (atom : Atom) : ofText atom.text = .ok atom := dif_neg atom.nonempty

theorem ofText_eq_ok_iff {text : String} {atom : Atom} : ofText text = .ok atom ↔ atom.text = text := by
  constructor
  · intro h
    unfold ofText at h
    split at h
    · cases h
    · cases h
      rfl
  · rintro rfl
    exact atom.ofText_text

theorem length_pos (atom : Atom) : 0 < atom.length := by
  rcases atom with ⟨text, nonempty⟩
  exact Nat.pos_of_ne_zero fun h => nonempty (String.length_eq_zero_iff.1 h)

end Atom

/-- An atom, a bare closing parenthesis, or expressions in a row between parentheses. -/
inductive Expr where
  | atom (atom : Atom)
  | nil
  | list (children : List Expr)

namespace Expr

instance : Inhabited Expr := ⟨nil⟩

/-! ### Equality -/

mutual

private def decEq : (s t : Expr) → Decidable (s = t)
  | atom a, atom b => decidable_of_iff (a = b) (by rw [atom.injEq])
  | nil, nil => isTrue rfl
  | list cs, list ds =>
    match decEqAll cs ds with
    | isTrue h => isTrue (congrArg list h)
    | isFalse h => isFalse fun e => h (list.inj e)
  | atom _, nil => isFalse nofun
  | atom _, list _ => isFalse nofun
  | nil, atom _ => isFalse nofun
  | nil, list _ => isFalse nofun
  | list _, atom _ => isFalse nofun
  | list _, nil => isFalse nofun

private def decEqAll : (cs ds : List Expr) → Decidable (cs = ds)
  | [], [] => isTrue rfl
  | c :: cs, d :: ds =>
    match decEq c d with
    | isFalse h => isFalse fun e => h (List.cons.inj e).1
    | isTrue h =>
      match decEqAll cs ds with
      | isFalse hs => isFalse fun e => hs (List.cons.inj e).2
      | isTrue hs => isTrue (by rw [h, hs])
  | [], _ :: _ => isFalse nofun
  | _ :: _, [] => isFalse nofun

end

instance : DecidableEq Expr := decEq

/-! ### Nil -/

/-- The expression is a bare closing parenthesis. -/
def isNil : Expr → Bool
  | nil => true
  | _ => false

@[simp] theorem isNil_iff {e : Expr} : e.isNil = true ↔ e = nil := by
  cases e <;> simp [isNil]

/-! ### Size -/

mutual

/-- The number of characters in the atoms of an expression. -/
def size : Expr → Nat
  | atom a => a.length
  | nil => 0
  | list children => sizeAll children

/-- The size of expressions in a row. -/
def sizeAll : List Expr → Nat
  | [] => 0
  | child :: rest => child.size + sizeAll rest

end

theorem sizeAll_append (before after : List Expr) : sizeAll (before ++ after) = sizeAll before + sizeAll after := by
  induction before with
  | nil => exact (Nat.zero_add _).symm
  | cons child before ih => rw [List.cons_append, sizeAll, sizeAll, ih, Nat.add_assoc]

/-- A list is at least as large as any of its children. -/
theorem size_le_of_mem {child : Expr} {children : List Expr} (h : child ∈ children) :
    child.size ≤ (list children).size := by
  rw [size]
  induction children with
  | nil => cases h
  | cons first rest ih =>
    rw [sizeAll]
    rcases List.mem_cons.1 h with rfl | h
    · exact Nat.le_add_right _ _
    · exact Nat.le_trans (ih h) (Nat.le_add_left _ _)

end Expr

end SExprLayout
