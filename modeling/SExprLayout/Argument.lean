/-!
# Arguments and settings by name

An argument is a value as a caller hands it in, before it is known to be what an operation needs: a text, a run of
bytes that is fixed or may still change, a whole number, a truth value (which is no number), a number that may have
a fractional part, a sequence, or the value that stands for no value.  Of those that no operation takes nothing is
kept but the name of the type, because a refusal reports nothing else.

A layout is steered by two numbers, the settings; messages and later changes name the one they are about.
-/

namespace SExprLayout

/-- A value handed in by a caller. -/
inductive Argument where
  | text (value : String)
  | bytes (value : List UInt8)
  | buffer (value : List UInt8)
  | integer (value : Int)
  | boolean
  | real
  | sequence
  | absent
  deriving DecidableEq

/-- The name of an argument's type in messages. -/
def Argument.typeName : Argument → String
  | text _ => "str"
  | bytes _ => "bytes"
  | buffer _ => "bytearray"
  | integer _ => "int"
  | boolean => "bool"
  | real => "float"
  | sequence => "list"
  | absent => "NoneType"

/-- The width that lines are meant to keep to, and the number of columns by which a level of nesting is indented. -/
inductive Setting where
  | maxWidth
  | indentSize
  deriving DecidableEq

/-- The name of a setting in messages. -/
def Setting.name : Setting → String
  | maxWidth => "max_width"
  | indentSize => "indent_size"

end SExprLayout
