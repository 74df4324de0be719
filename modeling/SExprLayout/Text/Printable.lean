import SExprLayout.Text.Unassigned

/-!
# Printable characters

A character is printable unless it has no form of its own on the page: controls, format characters, private use,
every separator other than the plain space, and whatever is assigned to no character.  The ranges below are the
general categories `Cc`, `Cf`, `Co`, `Zl`, `Zp` and `Zs` without the space; surrogates (`Cs`) are not characters here.
-/

namespace SExprLayout

/-- The inclusive ranges of characters without a printed form, in increasing order. -/
def unprintableRanges : List (Nat × Nat) :=
  [(0x0, 0x1f), (0x7f, 0xa0), (0xad, 0xad), (0x600, 0x605), (0x61c, 0x61c), (0x6dd, 0x6dd), (0x70f, 0x70f),
   (0x890, 0x891), (0x8e2, 0x8e2), (0x1680, 0x1680), (0x180e, 0x180e), (0x2000, 0x200f), (0x2028, 0x202f),
   (0x205f, 0x2064), (0x2066, 0x206f), (0x3000, 0x3000), (0xe000, 0xf8ff), (0xfeff, 0xfeff), (0xfff9, 0xfffb),
   (0x110bd, 0x110bd), (0x110cd, 0x110cd), (0x13430, 0x13438), (0x1bca0, 0x1bca3), (0x1d173, 0x1d17a),
   (0xe0001, 0xe0001), (0xe0020, 0xe007f), (0xf0000, 0xffffd), (0x100000, 0x10fffd)]

/-- The character has a printed form. -/
def isPrintable (c : Char) : Bool :=
  !(unprintableRanges ++ unassignedRanges).any fun (first, last) => first ≤ c.toNat && c.toNat ≤ last

/-- Below the first unassigned code point, only the other ranges count. -/
private theorem isPrintable_of_lt {c : Char} (h : c.toNat < 0x378) :
    isPrintable c = !unprintableRanges.any fun (first, last) => first ≤ c.toNat && c.toNat ≤ last := by
  have assigned : (unassignedRanges.any fun (first, last) => first ≤ c.toNat && c.toNat ≤ last) = false := by
    rw [List.any_eq_false]
    intro range mem within
    have := le_of_mem_unassignedRanges mem
    simp only [Bool.and_eq_true, decide_eq_true_eq] at within
    omega
  rw [isPrintable, List.any_append, assigned, Bool.or_false]

/-- The printable characters of ASCII are those from the space to the tilde. -/
theorem isPrintable_of_ascii {c : Char} (low : 0x20 ≤ c.toNat) (high : c.toNat ≤ 0x7e) : isPrintable c = true := by
  have table : ∀ code < 0x7f, 0x20 ≤ code →
      (!unprintableRanges.any fun (first, last) => first ≤ code && code ≤ last) = true := by decide +kernel
  rw [isPrintable_of_lt (by omega)]
  exact table c.toNat (by omega) low

/-- A control character of ASCII is not printable. -/
theorem isPrintable_of_control {c : Char} (h : c.toNat < 0x20 ∨ c.toNat = 0x7f) : isPrintable c = false := by
  have table : ∀ code < 0x80, (code < 0x20 ∨ code = 0x7f) →
      (!unprintableRanges.any fun (first, last) => first ≤ code && code ≤ last) = false := by decide +kernel
  rw [isPrintable_of_lt (by omega)]
  exact table c.toNat (by omega) h

end SExprLayout
