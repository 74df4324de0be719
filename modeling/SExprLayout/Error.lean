import SExprLayout.Argument
import SExprLayout.Source.Kind
import SExprLayout.Text.Quoted

/-!
# Errors

Each way in which an operation can fail is a cause of its own; `Error.message` words it.
-/

namespace SExprLayout

/-- Why an operation failed. -/
inductive Error where
  /-- The source holds no token. -/
  | nothingToParse
  /-- The bytes of the atom between the two positions are not UTF-8. -/
  | notUtf8 (start stop : Int)
  /-- No expression is made from a node of this kind. -/
  | unknownKind (kind : Kind)
  /-- An atom without text. -/
  | emptyAtom
  /-- A setting that is not a whole number. -/
  | notInteger (setting : Setting) (given : Argument)
  /-- A setting below zero. -/
  | negative (setting : Setting) (given : Int)
  /-- A source that is neither text nor bytes. -/
  | notSource (given : Argument)
  /-- A name that no tree is stored under. -/
  | unknownName (name : String)
  /-- A tree without a child at this place. -/
  | noSuchChild (index : Int)
  deriving DecidableEq

/-- The wording of an error. -/
def Error.message : Error → String
  | nothingToParse => "could not parse anything"
  | notUtf8 start stop => s!"atom at bytes {start}..{stop} is not valid UTF-8"
  | unknownKind kind => "unknown node kind " ++ Quoted.quote kind.name
  | emptyAtom => "atom text must be non-empty"
  | notInteger setting given => s!"{setting.name} must be an int, got {given.typeName}"
  | negative setting given => s!"{setting.name} must be non-negative, got {given}"
  | notSource given => s!"expected str, bytes or bytearray, got {given.typeName}"
  | unknownName name => "no tree is named " ++ Quoted.quote name
  | noSuchChild index => s!"no child at {index}"

end SExprLayout
