import SExprLayout.Source.Token
import SExprLayout.Text.Utf8

/-!
# Characters and their bytes

A source is read byte by byte and written character by character.  A character falls into a class by the same rule
as a byte, and every byte of its encoding has the class of the character (`of_mem_utf8EncodeChar`): a blank or a
parenthesis is a single byte, and no byte of a longer encoding is one of them.  Hence the bytes of a text are all
ordinary if and only if the text holds no delimiter (`forall_mem_encode_iff`).
-/

namespace SExprLayout

/-- What a character does in a source. -/
def ByteClass.ofChar (c : Char) : ByteClass :=
  if c = '(' then opening
  else if c = ')' then closing
  else if c ∈ [' ', '\t', '\n', '\x0b', '\x0c', '\r'] then blank
  else ordinary

/-- The characters that end an atom: the six blanks and the two parentheses. -/
def delimiters : List Char := [' ', '\t', '\n', '\r', '\x0c', '\x0b', '(', ')']

namespace ByteClass

theorem ofChar_eq_ordinary_iff {c : Char} : ofChar c = ordinary ↔ c ∉ delimiters := by
  simp only [ofChar, delimiters, List.mem_cons, List.not_mem_nil, or_false]
  grind

private theorem of_high {byte : UInt8} (h : 0x80 ≤ byte.toNat) : of byte = ordinary := by
  have opening : byte ≠ 0x28 := by rintro rfl; exact absurd h (by decide)
  have closing : byte ≠ 0x29 := by rintro rfl; exact absurd h (by decide)
  have blank : ¬(byte = 0x20 ∨ (0x09 ≤ byte ∧ byte ≤ 0x0d)) := by
    rintro (rfl | ⟨-, low⟩)
    · exact absurd h (by decide)
    · have : byte.toNat ≤ 0x0d := UInt8.le_iff_toNat_le.1 low
      omega
  rw [of, if_neg opening, if_neg closing, if_neg blank]

/-- No delimiter is outside ASCII. -/
theorem ofChar_high {c : Char} (h : 0x80 ≤ c.toNat) : ofChar c = ordinary := by
  have apart : ∀ d : Char, d.toNat < 0x80 → c ≠ d := by
    rintro d low rfl
    omega
  have blank : c ∉ [' ', '\t', '\n', '\x0b', '\x0c', '\r'] := by
    simp only [List.mem_cons, List.not_mem_nil, or_false, not_or]
    refine ⟨?_, ?_, ?_, ?_, ?_, ?_⟩ <;> exact apart _ (by decide)
  rw [ofChar, if_neg (apart '(' (by decide)), if_neg (apart ')' (by decide)), if_neg blank]

/-- The bytes below 128 are the characters of the same code. -/
private theorem of_low {c : Char} (h : c.toNat < 0x80) : of (UInt8.ofNat c.toNat) = ofChar c := by
  have table : ∀ code < 0x80, of (UInt8.ofNat code) = ofChar (Char.ofNat code) := by decide +kernel
  rw [table c.toNat h, Char.ofNat_toNat]

/-- The encoding of a character below 128 is one byte of the same code, and all bytes of any other are from 128 on. -/
private theorem mem_utf8EncodeChar {c : Char} {byte : UInt8} (h : byte ∈ String.utf8EncodeChar c) :
    (c.toNat < 0x80 ∧ byte = UInt8.ofNat c.toNat) ∨ (0x80 ≤ c.toNat ∧ 0x80 ≤ byte.toNat) := by
  have marked : ∀ n, 0x80 ≤ n → n < 0x100 → 0x80 ≤ (UInt8.ofNat n).toNat := by
    intro n low high
    rwa [UInt8.toNat_ofNat', Nat.mod_eq_of_lt high]
  have size : c.val.toNat = c.toNat := rfl
  unfold String.utf8EncodeChar at h
  dsimp only at h
  split at h
  · exact .inl ⟨by omega, List.mem_singleton.1 h⟩
  · refine .inr ⟨by omega, ?_⟩
    split at h
    · simp only [List.mem_cons, List.not_mem_nil, or_false] at h
      rcases h with rfl | rfl <;> exact marked _ (by omega) (by omega)
    · split at h
      · simp only [List.mem_cons, List.not_mem_nil, or_false] at h
        rcases h with rfl | rfl | rfl <;> exact marked _ (by omega) (by omega)
      · simp only [List.mem_cons, List.not_mem_nil, or_false] at h
        rcases h with rfl | rfl | rfl | rfl <;> exact marked _ (by omega) (by omega)

/-- Every byte of a character has the class of the character. -/
theorem of_mem_utf8EncodeChar {c : Char} {byte : UInt8} (h : byte ∈ String.utf8EncodeChar c) :
    of byte = ofChar c := by
  rcases mem_utf8EncodeChar h with ⟨low, rfl⟩ | ⟨high, high'⟩
  · exact of_low low
  · rw [of_high high', ofChar_high high]

end ByteClass

namespace Utf8

theorem encode_eq_flatMap (text : String) : encode text = text.toList.flatMap String.utf8EncodeChar := by
  rw [encode, ← String.utf8Encode_toList, List.utf8Encode, List.data_toByteArray]

/-- Every byte of a text has the class of one of its characters. -/
theorem exists_of_mem_encode {text : String} {byte : UInt8} (h : byte ∈ encode text) :
    ∃ c ∈ text.toList, ByteClass.of byte = ByteClass.ofChar c := by
  rw [encode_eq_flatMap] at h
  obtain ⟨c, hc, mem⟩ := List.mem_flatMap.1 h
  exact ⟨c, hc, ByteClass.of_mem_utf8EncodeChar mem⟩

/-- The bytes of a text are all ordinary if and only if the text holds no delimiter. -/
theorem forall_mem_encode_iff {text : String} :
    (∀ byte ∈ encode text, ByteClass.of byte = .ordinary) ↔ ∀ c ∈ text.toList, c ∉ delimiters := by
  constructor
  · intro h c hc
    obtain ⟨byte, rest, e⟩ := List.exists_cons_of_ne_nil (String.utf8EncodeChar_ne_nil (c := c))
    have mem : byte ∈ String.utf8EncodeChar c := by rw [e]; exact List.mem_cons_self
    rw [← ByteClass.ofChar_eq_ordinary_iff, ← ByteClass.of_mem_utf8EncodeChar mem]
    apply h
    rw [encode_eq_flatMap]
    exact List.mem_flatMap.2 ⟨c, hc, mem⟩
  · intro h byte hb
    obtain ⟨c, hc, e⟩ := exists_of_mem_encode hb
    rw [e, ByteClass.ofChar_eq_ordinary_iff]
    exact h c hc

end Utf8

end SExprLayout
