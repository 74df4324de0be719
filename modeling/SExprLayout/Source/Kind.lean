/-!
# Kinds of concrete nodes

A concrete node carries a kind, which is a name.  Seven names have a meaning; any other name may occur on a node
made by hand, and then it is kept as it is.  A kind and its name determine each other (`ofName_name`,
`name_ofName`).
-/

namespace SExprLayout

/-- What a concrete node stands for: the whole source, an atom, a closed list, a part with an unmatched parenthesis, a
part that the source lacks, a parenthesis, or whatever else its name says. -/
inductive Kind where
  | root
  | atom
  | list
  | error
  | missing
  | opening
  | closing
  | other (name : String)
      (unreserved : name ∉ ["sexp", "atom", "list", "ERROR", "MISSING", "(", ")"])
  deriving DecidableEq

namespace Kind

/-- The name of a kind. -/
def name : Kind → String
  | root => "sexp"
  | atom => "atom"
  | list => "list"
  | error => "ERROR"
  | missing => "MISSING"
  | opening => "("
  | closing => ")"
  | other name _ => name

/-- The kind of a name. -/
def ofName (name : String) : Kind :=
  if h : name ∉ ["sexp", "atom", "list", "ERROR", "MISSING", "(", ")"] then other name h
  else if name = "sexp" then root
  else if name = "atom" then atom
  else if name = "list" then list
  else if name = "ERROR" then error
  else if name = "MISSING" then missing
  else if name = "(" then opening
  else closing

/-- Kinds that mark a part of the source that had to be recovered. -/
def isRecovery : Kind → Bool
  | error | missing => true
  | _ => false

@[simp] theorem ofName_name (kind : Kind) : ofName kind.name = kind := by
  cases kind with
  | other name unreserved => exact dif_pos unreserved
  | _ => decide

@[simp] theorem name_ofName (name : String) : (ofName name).name = name := by
  unfold ofName
  split
  · rfl
  · rename_i h
    simp only [Decidable.not_not, List.mem_cons, List.not_mem_nil, or_false] at h
    rcases h with rfl | rfl | rfl | rfl | rfl | rfl | rfl <;> decide

theorem name_injective {k l : Kind} (h : k.name = l.name) : k = l := by
  rw [← ofName_name k, h, ofName_name]

end Kind

end SExprLayout
