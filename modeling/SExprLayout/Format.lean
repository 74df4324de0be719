import SExprLayout.Expr.OfNode
import SExprLayout.Layout.Basic

/-!
# Formatting sources

A source is formatted by parsing it and laying its first expression out.  A caller's settings are checked before the
source is looked at.  A text is a source by its UTF-8 bytes.  `reformat` formats a source and then the result, and
`sweep` lays one expression out for many settings.
-/

namespace SExprLayout

/-- The bytes of an argument that is a source. -/
def Argument.toSource : Argument → Except Error (List UInt8)
  | text value => .ok (Utf8.encode value)
  | bytes value => .ok value
  | buffer value => .ok value
  | given => .error (.notSource given)

/-- The concrete tree of an argument that is a source, together with the source. -/
def Node.ofArgument (source : Argument) : Except Error (List UInt8 × Node) := do
  let bytes ← source.toSource
  let root ← Node.read bytes
  return (bytes, root)

/-- The first expression of an argument that is a source. -/
def Expr.ofArgument (source : Argument) : Except Error Expr := do
  let bytes ← source.toSource
  Expr.parse bytes

/-- Lays an expression out for the settings of a caller. -/
def formatExpr (maxWidth indentSize : Option Argument) (e : Expr) : Except Error String := do
  let settings ← Settings.ofArguments maxWidth indentSize
  return e.format settings

/-- Lays the first expression of a source out for the settings of a caller. -/
def formatSource (maxWidth indentSize : Option Argument) (source : Argument) : Except Error String := do
  let settings ← Settings.ofArguments maxWidth indentSize
  let e ← Expr.ofArgument source
  return e.format settings

/-- Formats a source, and then what came out of it. -/
def reformat (maxWidth indentSize : Option Argument) (source : Argument) :
    Except Error (String × Except Error String) := do
  let once ← formatSource maxWidth indentSize source
  return (once, formatSource maxWidth indentSize (.text once))

/-- Lays an expression out for each indent size and, within it, for each maximum width. -/
def sweep (widths indents : List Int) (e : Expr) : Except Error (List String) := do
  let rows ← indents.mapM fun indent => widths.mapM fun width =>
    formatExpr (some (.integer width)) (some (.integer indent)) e
  return rows.flatten

/-- Checked settings leave nothing that could fail. -/
theorem formatExpr_integer {maxWidth indentSize : Int} (hw : 0 ≤ maxWidth) (hi : 0 ≤ indentSize) (e : Expr) :
    formatExpr (some (.integer maxWidth)) (some (.integer indentSize)) e =
      .ok (e.format ⟨maxWidth, indentSize⟩) := by
  rw [formatExpr, Settings.ofArguments_integer hw hi]
  rfl

/-- Once the settings are checked, formatting a source fails only as parsing it does. -/
theorem formatSource_of_settings {maxWidth indentSize : Option Argument} {settings : Settings}
    (checked : Settings.ofArguments maxWidth indentSize = .ok settings) (source : Argument) :
    formatSource maxWidth indentSize source = (Expr.ofArgument source).map (Expr.format settings) := by
  rw [formatSource, checked]
  cases Expr.ofArgument source <;> rfl

theorem formatSource_integer {maxWidth indentSize : Int} (hw : 0 ≤ maxWidth) (hi : 0 ≤ indentSize)
    (source : Argument) :
    formatSource (some (.integer maxWidth)) (some (.integer indentSize)) source =
      (Expr.ofArgument source).map (Expr.format ⟨maxWidth, indentSize⟩) :=
  formatSource_of_settings (Settings.ofArguments_integer hw hi) source

end SExprLayout
