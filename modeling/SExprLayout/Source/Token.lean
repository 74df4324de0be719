/-!
# Tokens

A source is a list of bytes.  Six blank bytes separate; each parenthesis is a token of its own; every other maximal
run of bytes is an atom.  A token keeps its bytes and the position of the first of them.

Scanning goes from the last byte to the first: a byte that belongs to an atom joins the token that begins right
after it, if that is an atom, and begins a new one otherwise.  `scan_append` says that scanning cuts a source
anywhere but inside an atom, and `scan_add` that a later position moves the tokens and does nothing else.
-/

namespace SExprLayout

/-- What a byte does in a source: it separates, opens a list, closes one, or belongs to an atom. -/
inductive ByteClass where
  | blank
  | opening
  | closing
  | ordinary
  deriving DecidableEq

/-- The blank bytes are the space and the five controls from the tab to the carriage return. -/
def ByteClass.of (byte : UInt8) : ByteClass :=
  if byte = 0x28 then opening
  else if byte = 0x29 then closing
  else if byte = 0x20 ∨ (0x09 ≤ byte ∧ byte ≤ 0x0d) then blank
  else ordinary

/-- What a token is, apart from its position. -/
inductive Lexeme where
  | opening
  | closing
  | atom (bytes : List UInt8)
  deriving DecidableEq

/-- The bytes of a lexeme. -/
def Lexeme.bytes : Lexeme → List UInt8
  | opening => [0x28]
  | closing => [0x29]
  | atom bytes => bytes

/-- A lexeme at its position in a source. -/
structure Token where
  start : Nat
  lexeme : Lexeme
  deriving DecidableEq

namespace Token

/-- The bytes of a token. -/
def bytes (token : Token) : List UInt8 := token.lexeme.bytes

/-- The position after the last byte. -/
def stop (token : Token) : Nat := token.start + token.bytes.length

/-- The same token further on. -/
def shift (distance : Nat) (token : Token) : Token := ⟨token.start + distance, token.lexeme⟩

/-! ### Scanning -/

/-- Puts the byte of an atom before the tokens that follow it. -/
def extend (position : Nat) (byte : UInt8) : List Token → List Token
  | ⟨start, .atom bytes⟩ :: later =>
    if start = position + 1 then ⟨position, .atom (byte :: bytes)⟩ :: later
    else ⟨position, .atom [byte]⟩ :: ⟨start, .atom bytes⟩ :: later
  | later => ⟨position, .atom [byte]⟩ :: later

/-- Puts a byte before the tokens that follow it. -/
def scanByte (position : Nat) (byte : UInt8) (later : List Token) : List Token :=
  match ByteClass.of byte with
  | .blank => later
  | .opening => ⟨position, .opening⟩ :: later
  | .closing => ⟨position, .closing⟩ :: later
  | .ordinary => extend position byte later

/-- The tokens of a source whose first byte has the given position. -/
def scan (position : Nat) (source : List UInt8) : List Token :=
  (source.zipIdx position).foldr (fun (byte, position) later => scanByte position byte later) []

@[simp] theorem scan_nil (position : Nat) : scan position [] = [] := rfl

theorem scan_cons (position : Nat) (byte : UInt8) (source : List UInt8) :
    scan position (byte :: source) = scanByte position byte (scan (position + 1) source) := rfl

end Token

/-- The tokens of a source, from left to right. -/
def tokens (source : List UInt8) : List Token := Token.scan 0 source

namespace Token

private theorem start_of_mem_extend {position : Nat} {byte : UInt8} {later : List Token} {token : Token}
    (h : token ∈ extend position byte later) : token.start = position ∨ token ∈ later := by
  unfold extend at h
  split at h
  · split at h
    · rcases List.mem_cons.1 h with rfl | h
      · exact .inl rfl
      · exact .inr (List.mem_cons_of_mem _ h)
    · rcases List.mem_cons.1 h with rfl | h
      · exact .inl rfl
      · exact .inr h
  · rcases List.mem_cons.1 h with rfl | h
    · exact .inl rfl
    · exact .inr h

private theorem start_of_mem_scanByte {position : Nat} {byte : UInt8} {later : List Token} {token : Token}
    (h : token ∈ scanByte position byte later) : token.start = position ∨ token ∈ later := by
  unfold scanByte at h
  split at h
  · exact .inr h
  · exact (List.mem_cons.1 h).imp_left (congrArg Token.start)
  · exact (List.mem_cons.1 h).imp_left (congrArg Token.start)
  · exact start_of_mem_extend h

/-- No token begins before the first byte. -/
theorem le_start_of_mem_scan {position : Nat} {source : List UInt8} {token : Token}
    (h : token ∈ scan position source) : position ≤ token.start := by
  induction source generalizing position with
  | nil => cases h
  | cons byte source ih =>
    rw [scan_cons] at h
    rcases start_of_mem_scanByte h with e | h
    · exact Nat.le_of_eq e.symm
    · exact Nat.le_of_succ_le (ih h)

private theorem extend_map_shift (distance position : Nat) (byte : UInt8) (later : List Token) :
    extend (position + distance) byte (later.map (shift distance)) =
      (extend position byte later).map (shift distance) := by
  rcases later with _ | ⟨⟨start, _ | _ | bytes⟩, later⟩
  · rfl
  · rfl
  · rfl
  · show extend (position + distance) byte (⟨start + distance, .atom bytes⟩ :: later.map (shift distance)) = _
    by_cases h : start = position + 1
    · simp [extend, shift, h, Nat.add_right_comm]
    · have : ¬start + distance = position + distance + 1 := by omega
      simp [extend, shift, h, this]

/-- A later first position moves every token by as much. -/
theorem scan_add (position distance : Nat) (source : List UInt8) :
    scan (position + distance) source = (scan position source).map (shift distance) := by
  induction source generalizing position with
  | nil => rfl
  | cons byte source ih =>
    rw [scan_cons, scan_cons, Nat.add_right_comm, ih]
    unfold scanByte
    split
    · rfl
    · rfl
    · rfl
    · exact extend_map_shift distance position byte _

private theorem extend_append {position : Nat} {byte : UInt8} {later rest : List Token} (h : later ≠ []) :
    extend position byte (later ++ rest) = extend position byte later ++ rest := by
  rcases later with _ | ⟨⟨start, _ | _ | bytes⟩, later⟩
  · exact absurd rfl h
  · rfl
  · rfl
  · simp only [List.cons_append, extend]
    split <;> rfl

private theorem extend_of_apart {position : Nat} {byte : UInt8} {later : List Token}
    (apart : ∀ start bytes, later.head? = some ⟨start, .atom bytes⟩ → start ≠ position + 1) :
    extend position byte later = ⟨position, .atom [byte]⟩ :: later := by
  unfold extend
  split
  · exact if_neg (apart _ _ rfl)
  · rfl

private theorem start_ne_of_head?_scan {position start : Nat} {source bytes : List UInt8}
    (h : ∀ byte ∈ source.head?, ByteClass.of byte ≠ .ordinary)
    (head : (scan position source).head? = some ⟨start, .atom bytes⟩) : start ≠ position := by
  rcases source with _ | ⟨byte, source⟩
  · cases head
  · rw [scan_cons] at head
    unfold scanByte at head
    split at head
    · exact Nat.ne_of_gt (le_start_of_mem_scan (List.mem_of_mem_head? head))
    · cases head
    · cases head
    · exact absurd ‹_› (h byte rfl)

/-- Two sources in a row are scanned apart, unless an atom runs over the seam. -/
theorem scan_append {position : Nat} {before after : List UInt8}
    (seam : (∀ byte ∈ before.getLast?, ByteClass.of byte ≠ .ordinary) ∨
      ∀ byte ∈ after.head?, ByteClass.of byte ≠ .ordinary) :
    scan position (before ++ after) = scan position before ++ scan (position + before.length) after := by
  induction before generalizing position with
  | nil => rfl
  | cons byte before ih =>
    have later : scan (position + 1) (before ++ after) =
        scan (position + 1) before ++ scan (position + 1 + before.length) after := by
      rcases before with _ | ⟨next, before⟩
      · rfl
      · exact ih (by rwa [List.getLast?_cons_cons] at seam)
    rw [List.cons_append, scan_cons, later, scan_cons, List.length_cons,
      show position + (before.length + 1) = position + 1 + before.length by omega]
    unfold scanByte
    split
    · rfl
    · rfl
    · rfl
    · rename_i ordinary
      by_cases empty : scan (position + 1) before = []
      · rw [empty, List.nil_append, extend_of_apart, extend_of_apart]
        · rfl
        · intro _ _ h
          cases h
        · intro start bytes head
          rcases before with _ | ⟨next, before⟩
          · exact start_ne_of_head?_scan (seam.resolve_left fun h => h byte rfl ordinary) head
          · have := le_start_of_mem_scan (List.mem_of_mem_head? head)
            simp only [List.length_cons] at this
            omega
      · exact extend_append empty

end Token

end SExprLayout
