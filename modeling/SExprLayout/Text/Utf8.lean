/-!
# Text as bytes

A source is a list of bytes and an atom is a text, so the two are tied by UTF-8.  `encode` writes a text as
bytes and `decode?` reads bytes back, refusing whatever is not strictly encoded: overlong forms, surrogates and
code points past the last one.  Decoding undoes encoding, and what can be decoded is exactly what was encoded
(`decode?_eq_some_iff`); encoding distributes over concatenation.
-/

namespace SExprLayout.Utf8

/-- The bytes of a text. -/
def encode (text : String) : List UInt8 := text.toByteArray.data.toList

/-- The text that the bytes encode, if they are strict UTF-8. -/
def decode? (bytes : List UInt8) : Option String := String.fromUTF8? bytes.toByteArray

/-- The bytes are the encoding of some text. -/
def IsValid (bytes : List UInt8) : Prop := ∃ text, decode? bytes = some text

instance (bytes : List UInt8) : Decidable (IsValid bytes) :=
  decidable_of_iff ((decode? bytes).isSome = true) Option.isSome_iff_exists

private theorem toByteArray_encode (text : String) : (encode text).toByteArray = text.toByteArray := by
  apply ByteArray.ext
  rw [List.data_toByteArray, encode]

private theorem encode_ofByteArray (bytes : List UInt8) (h : bytes.toByteArray.IsValidUTF8) :
    encode (String.ofByteArray bytes.toByteArray h) = bytes := by
  show bytes.toByteArray.data.toList = bytes
  rw [List.data_toByteArray]

theorem decode?_encode (text : String) : decode? (encode text) = some text := by
  unfold decode?
  rw [toByteArray_encode, String.fromUTF8?, dif_pos text.isValidUTF8]
  rfl

/-- Decoding answers a text exactly for that text's own bytes. -/
theorem decode?_eq_some_iff {bytes : List UInt8} {text : String} :
    decode? bytes = some text ↔ bytes = encode text := by
  constructor
  · intro h
    unfold decode? String.fromUTF8? at h
    split at h
    · rename_i valid
      rw [← Option.some.inj h]
      exact (encode_ofByteArray bytes valid).symm
    · cases h
  · rintro rfl
    exact decode?_encode text

theorem encode_injective {s t : String} (h : encode s = encode t) : s = t :=
  Option.some.inj (by rw [← decode?_encode s, h, decode?_encode])

@[simp] theorem encode_empty : encode "" = [] := rfl

@[simp] theorem encode_append (s t : String) : encode (s ++ t) = encode s ++ encode t := by
  simp [encode, String.toByteArray_append]

theorem isValid_encode (text : String) : IsValid (encode text) := ⟨text, decode?_encode text⟩

theorem IsValid.append {before after : List UInt8} (h : IsValid before) (h' : IsValid after) :
    IsValid (before ++ after) := by
  obtain ⟨s, isText⟩ := h
  obtain ⟨t, isText'⟩ := h'
  rw [decode?_eq_some_iff.1 isText, decode?_eq_some_iff.1 isText', ← encode_append]
  exact isValid_encode (s ++ t)

@[simp] theorem encode_eq_nil {text : String} : encode text = [] ↔ text = "" :=
  ⟨fun h => encode_injective h, fun h => h ▸ encode_empty⟩

end SExprLayout.Utf8
