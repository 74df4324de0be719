import SExprLayout.Text.Printable

/-!
# Quoted text

A text inside a message stands between quotation marks, on one line and in printable characters only
(`isPrintable_of_mem_quote`).  The mark is the single quotation mark unless the text holds that one and not the
double one.  The backslash and the mark in use are written after a backslash, line ends and tabs by their letters,
any other character without a printed form by its code point in hexadecimal, with as many digits as its size asks
for.
-/

namespace SExprLayout.Quoted

/-- The quotation mark that a text is written in. -/
def mark (text : List Char) : Char :=
  if '\x27' ∈ text ∧ '\x22' ∉ text then '\x22' else '\x27'

/-- The last digits of a number in lower-case hexadecimal, as many as asked for. -/
def hexDigits : Nat → Nat → List Char
  | 0, _ => []
  | count + 1, n => hexDigits count (n / 16) ++ [Nat.digitChar (n % 16)]

/-- A code point by its digits, after the letter that tells how many there are. -/
def byCode (code : Nat) : List Char :=
  if code < 0x100 then '\\' :: 'x' :: hexDigits 2 code
  else if code < 0x10000 then '\\' :: 'u' :: hexDigits 4 code
  else '\\' :: 'U' :: hexDigits 8 code

/-- One character as it is written between marks. -/
def escape (mark c : Char) : List Char :=
  if c = mark ∨ c = '\\' then ['\\', c]
  else if c = '\n' then ['\\', 'n']
  else if c = '\r' then ['\\', 'r']
  else if c = '\t' then ['\\', 't']
  else if isPrintable c then [c]
  else byCode c.toNat

/-- A text between quotation marks. -/
def quote (text : String) : String :=
  let mark := mark text.toList
  String.ofList (mark :: text.toList.flatMap (escape mark) ++ [mark])

/-! ### Quoted text is printable -/

private theorem isPrintable_mark (text : List Char) : isPrintable (mark text) = true := by
  unfold mark
  split <;> exact isPrintable_of_ascii (by decide) (by decide)

private theorem isPrintable_of_mem_hexDigits {count n : Nat} {c : Char} (h : c ∈ hexDigits count n) :
    isPrintable c = true := by
  have digits : ∀ digit < 16, 0x20 ≤ (Nat.digitChar digit).toNat ∧ (Nat.digitChar digit).toNat ≤ 0x7e := by
    decide
  induction count generalizing n with
  | zero => cases h
  | succ count ih =>
    rw [hexDigits] at h
    rcases List.mem_append.1 h with h | h
    · exact ih h
    · have last := digits (n % 16) (Nat.mod_lt n (by decide))
      rw [List.mem_singleton.1 h]
      exact isPrintable_of_ascii last.1 last.2

private theorem isPrintable_of_mem_byCode {code : Nat} {c : Char} (h : c ∈ byCode code) : isPrintable c = true := by
  have backslash : isPrintable '\\' = true := isPrintable_of_ascii (by decide) (by decide)
  unfold byCode at h
  split at h
  · simp only [List.mem_cons] at h
    obtain rfl | rfl | h := h
    · exact backslash
    · exact isPrintable_of_ascii (by decide) (by decide)
    · exact isPrintable_of_mem_hexDigits h
  · split at h
    · simp only [List.mem_cons] at h
      obtain rfl | rfl | h := h
      · exact backslash
      · exact isPrintable_of_ascii (by decide) (by decide)
      · exact isPrintable_of_mem_hexDigits h
    · simp only [List.mem_cons] at h
      obtain rfl | rfl | h := h
      · exact backslash
      · exact isPrintable_of_ascii (by decide) (by decide)
      · exact isPrintable_of_mem_hexDigits h

private theorem isPrintable_of_mem_escape {mark c d : Char} (hm : isPrintable mark = true) (h : d ∈ escape mark c) :
    isPrintable d = true := by
  have letters : ∀ e ∈ ['\\', 'n', 'r', 't'], isPrintable e = true := by
    intro e he
    simp only [List.mem_cons, List.not_mem_nil, or_false] at he
    obtain rfl | rfl | rfl | rfl := he <;> exact isPrintable_of_ascii (by decide) (by decide)
  unfold escape at h
  split at h
  · rename_i hc
    simp only [List.mem_cons, List.not_mem_nil, or_false] at h
    obtain rfl | rfl := h
    · exact letters _ (by simp)
    · obtain rfl | rfl := hc
      · exact hm
      · exact letters _ (by simp)
  · split at h
    · exact letters d (by grind)
    · split at h
      · exact letters d (by grind)
      · split at h
        · exact letters d (by grind)
        · split at h
          · rename_i printable
            rwa [List.mem_singleton.1 h]
          · exact isPrintable_of_mem_byCode h

/-- A quoted text has printable characters only, so that it never leaves its line. -/
theorem isPrintable_of_mem_quote {text : String} {c : Char} (h : c ∈ (quote text).toList) : isPrintable c = true := by
  have hm := isPrintable_mark text.toList
  simp only [quote, String.toList_ofList, List.cons_append, List.mem_cons, List.mem_append, List.mem_flatMap,
    List.not_mem_nil, or_false] at h
  obtain rfl | ⟨d, -, h⟩ | rfl := h
  · exact hm
  · exact isPrintable_of_mem_escape hm h
  · exact hm

end SExprLayout.Quoted
