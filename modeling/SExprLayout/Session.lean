import SExprLayout.Format
import SExprLayout.Layout.Print

/-!
# Sessions

A session is a sequence of steps over current settings, an output that trees are printed to, and trees stored under
names.  Each step answers or fails, and a step that fails changes nothing.  A step that answers the layout of a tree
prints it to an empty output of its own.
-/

namespace SExprLayout

/-- The current settings, what was written since the output was last cleared, and the named trees, latest first. -/
structure Session where
  settings : Settings
  output : String
  trees : List (String × Expr)

/-- One step of a session.  New settings are checked and become current, or one setting is changed without a check; a
tree is laid out, written to the output, measured, laid out with the default settings, or compared with another; the
output is emptied.  The last five steps make a tree and store it under a name. -/
inductive Step where
  | new (maxWidth indentSize : Option Argument)
  | set (setting : Setting) (value : Int)
  | format (tree : String)
  | write (tree : String)
  | clear
  | size (tree : String)
  | render (tree : String)
  | equal (first second : String)
  | parse (source : Argument) (name : String)
  | atom (text name : String)
  | nil (name : String)
  | list (items : List String) (name : String)
  | child (tree : String) (index : Int) (name : String)

/-- What a step answers. -/
inductive Answer where
  | text (value : String)
  | number (value : Nat)
  | truth (value : Bool)
  | tree (value : Expr)

/-- The child of an expression at an index; a negative index counts from the end. -/
def Expr.child (e : Expr) (index : Int) : Except Error Expr :=
  let children := match e with
    | list children => children
    | _ => []
  let place := if index < 0 then index + children.length else index
  match if place < 0 then none else children[place.toNat]? with
  | some child => .ok child
  | none => .error (.noSuchChild index)

namespace Session

/-- A session in which nothing has been done. -/
def start : Session := ⟨Settings.default, "", []⟩

/-- The tree of a name. -/
def tree (session : Session) (name : String) : Except Error Expr :=
  match session.trees.lookup name with
  | some e => .ok e
  | none => .error (.unknownName name)

/-- Stores a tree under a name and answers it. -/
def store (session : Session) (name : String) (e : Expr) : Answer × Session :=
  (.tree e, { session with trees := (name, e) :: session.trees })

/-- The answer of a step and the session after it. -/
def step (session : Session) : Step → Except Error (Answer × Session)
  | .new maxWidth indentSize => do
    let settings ← Settings.ofArguments maxWidth indentSize
    return (.text settings.describe, { session with settings })
  | .set setting value =>
    let settings := session.settings.set value setting
    .ok (.text settings.describe, { session with settings })
  | .format name => do
    let e ← session.tree name
    return (.text (e.printTo session.settings ""), session)
  | .write name => do
    let e ← session.tree name
    let output := e.printTo session.settings session.output
    return (.text output, { session with output })
  | .clear => .ok (.text "", { session with output := "" })
  | .size name => do
    let e ← session.tree name
    return (.number e.size, session)
  | .render name => do
    let e ← session.tree name
    return (.text (e.printTo Settings.default ""), session)
  | .equal first second => do
    let d ← session.tree first
    let e ← session.tree second
    return (.truth (decide (d = e)), session)
  | .parse source name => do
    let e ← Expr.ofArgument source
    return session.store name e
  | .atom text name => do
    let a ← Atom.ofText text
    return session.store name (.atom a)
  | .nil name => .ok (session.store name .nil)
  | .list items name => do
    let children ← items.mapM session.tree
    return session.store name (.list children)
  | .child name index newName => do
    let e ← session.tree name
    let child ← e.child index
    return session.store newName child

/-- The session after a step, which is the session before it if the step fails. -/
def after (session : Session) (step : Step) : Session :=
  match session.step step with
  | .ok (_, next) => next
  | .error _ => session

/-- What a step answers or how it fails. -/
def answer (session : Session) (step : Step) : Except Error Answer := (session.step step).map Prod.fst

/-- The answers of steps in a row. -/
def run (session : Session) : List Step → List (Except Error Answer)
  | [] => []
  | step :: steps => session.answer step :: run (session.after step) steps

end Session

end SExprLayout
