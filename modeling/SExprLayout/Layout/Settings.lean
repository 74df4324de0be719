import SExprLayout.Error

/-!
# The settings of a layout

A caller hands both settings in as arguments, or leaves one out and takes its default.  Checked settings are whole
numbers that are not negative; the maximum width is checked before the indent size, and the type of an argument
before its sign.  The layout itself is defined for all whole numbers.
-/

namespace SExprLayout

/-- The two numbers that steer a layout. -/
structure Settings where
  maxWidth : Int
  indentSize : Int
  deriving DecidableEq

namespace Settings

/-- The settings of a caller who asks for nothing else. -/
def default : Settings := ⟨150, 1⟩

/-- Gives a setting any value, without a check. -/
def set (settings : Settings) (value : Int) : Setting → Settings
  | .maxWidth => { settings with maxWidth := value }
  | .indentSize => { settings with indentSize := value }

/-- The value of an argument for a setting. -/
def check (setting : Setting) : Argument → Except Error Int
  | .integer value => if value < 0 then .error (.negative setting value) else .ok value
  | given => .error (.notInteger setting given)

/-- The settings of a caller's arguments; one that is left out takes its default. -/
def ofArguments (maxWidth indentSize : Option Argument) : Except Error Settings := do
  let maxWidth ← check .maxWidth (maxWidth.getD (.integer default.maxWidth))
  let indentSize ← check .indentSize (indentSize.getD (.integer default.indentSize))
  return ⟨maxWidth, indentSize⟩

/-- A one-line description. -/
def describe (settings : Settings) : String :=
  s!"PrettyPrinter(max_width={settings.maxWidth}, indent_size={settings.indentSize})"

/-- Exactly the whole numbers from zero on pass the check. -/
theorem check_eq_ok_iff {setting : Setting} {given : Argument} {value : Int} :
    check setting given = .ok value ↔ given = .integer value ∧ 0 ≤ value := by
  cases given with
  | integer n =>
    simp only [check, Argument.integer.injEq]
    split
    · refine ⟨nofun, ?_⟩
      rintro ⟨rfl, h⟩
      omega
    · rw [Except.ok.injEq]
      refine ⟨?_, And.left⟩
      rintro rfl
      exact ⟨rfl, by omega⟩
  | _ => exact ⟨nofun, fun h => nomatch h.1⟩

/-- Settings that were checked are what was handed in, and not negative. -/
theorem ofArguments_integer {maxWidth indentSize : Int} (hw : 0 ≤ maxWidth) (hi : 0 ≤ indentSize) :
    ofArguments (some (.integer maxWidth)) (some (.integer indentSize)) = .ok ⟨maxWidth, indentSize⟩ := by
  simp only [ofArguments, Option.getD_some, check_eq_ok_iff.2 ⟨rfl, hw⟩, check_eq_ok_iff.2 ⟨rfl, hi⟩]
  rfl

end Settings

end SExprLayout
