import SExprLayout.Source.Node

/-!
# Where tokens stand

A token of a source holds the bytes that stand at its position, and if it is an atom these are ordinary bytes, at
least one (`standsIn_of_mem_scan`).  So the text of a token's node is the token's own bytes (`text_leaf`), and each
token ends before the next one begins (`pairwise_tokens`).
-/

namespace SExprLayout

namespace ByteClass

theorem of_eq_opening_iff {byte : UInt8} : of byte = opening ↔ byte = 0x28 := by
  unfold of
  grind

theorem of_eq_closing_iff {byte : UInt8} : of byte = closing ↔ byte = 0x29 := by
  unfold of
  grind

end ByteClass

/-- The bytes that do nothing but separate: space, tab, line feed, carriage return, form feed and vertical tab. -/
def blankBytes : List UInt8 := [0x20, 0x09, 0x0a, 0x0d, 0x0c, 0x0b]

theorem ByteClass.of_eq_blank_iff {byte : UInt8} : of byte = blank ↔ byte ∈ blankBytes := by
  have table : ∀ code < 256, of (UInt8.ofNat code) = blank ↔ UInt8.ofNat code ∈ blankBytes := by decide +kernel
  have := table byte.toNat byte.toNat_lt
  rwa [UInt8.ofNat_toNat] at this

namespace Token

/-- Nothing but blanks holds no token. -/
theorem scan_eq_nil_iff {position : Nat} {source : List UInt8} :
    scan position source = [] ↔ ∀ byte ∈ source, ByteClass.of byte = .blank := by
  induction source generalizing position with
  | nil => simp
  | cons byte source ih =>
    rw [scan_cons, List.forall_mem_cons, ← @ih (position + 1)]
    unfold scanByte
    split
    · simp_all
    · simp_all
    · simp_all
    · rename_i ordinary
      simp only [ordinary, reduceCtorEq, false_and, iff_false]
      unfold extend
      split
      · split <;> exact List.cons_ne_nil _ _
      · exact List.cons_ne_nil _ _

/-- Ordinary bytes in a row are one atom. -/
theorem scan_ordinary {byte : UInt8} {source : List UInt8}
    (h : ∀ b ∈ byte :: source, ByteClass.of b = .ordinary) (position : Nat) :
    scan position (byte :: source) = [⟨position, .atom (byte :: source)⟩] := by
  induction source generalizing byte position with
  | nil =>
    rw [scan_cons, scanByte, h byte List.mem_cons_self]
    rfl
  | cons next source ih =>
    rw [List.forall_mem_cons] at h
    rw [scan_cons, ih h.2, scanByte, h.1]
    simp [extend]

/-- The token stands in a source whose first byte has the given position. -/
structure StandsIn (position : Nat) (source : List UInt8) (token : Token) : Prop where
  placed : ∃ before after, source = before ++ token.bytes ++ after ∧ token.start = position + before.length
  proper : ∀ bytes, token.lexeme = .atom bytes → bytes ≠ [] ∧ ∀ byte ∈ bytes, ByteClass.of byte = .ordinary

private theorem StandsIn.cons {position : Nat} {byte : UInt8} {source : List UInt8} {token : Token}
    (h : StandsIn (position + 1) source token) : StandsIn position (byte :: source) token := by
  obtain ⟨before, after, rfl, start⟩ := h.placed
  refine ⟨⟨byte :: before, after, rfl, ?_⟩, h.proper⟩
  rw [start, List.length_cons]
  omega

/-- An atom that begins right after an ordinary byte takes the byte in. -/
private theorem StandsIn.extend {position : Nat} {byte : UInt8} {source bytes : List UInt8}
    (h : StandsIn (position + 1) source ⟨position + 1, .atom bytes⟩) (ordinary : ByteClass.of byte = .ordinary) :
    StandsIn position (byte :: source) ⟨position, .atom (byte :: bytes)⟩ := by
  obtain ⟨before, after, e, start⟩ := h.placed
  obtain rfl : before = [] := List.eq_nil_of_length_eq_zero (by simp only at start; omega)
  refine ⟨⟨[], after, by rw [e]; rfl, rfl⟩, ?_⟩
  rintro _ ⟨⟩
  refine ⟨List.cons_ne_nil _ _, ?_⟩
  rw [List.forall_mem_cons]
  exact ⟨ordinary, (h.proper bytes rfl).2⟩

/-- A token before which an ordinary byte was put is that byte alone, an atom that took the byte in, or a token that
was there before. -/
private theorem mem_extend {position : Nat} {byte : UInt8} {later : List Token} {token : Token}
    (h : token ∈ extend position byte later) :
    token = ⟨position, .atom [byte]⟩ ∨
      (∃ bytes, ⟨position + 1, .atom bytes⟩ ∈ later ∧ token = ⟨position, .atom (byte :: bytes)⟩) ∨
      token ∈ later := by
  unfold Token.extend at h
  split at h
  · rename_i start bytes later
    split at h
    · rename_i adjacent
      subst adjacent
      rcases List.mem_cons.1 h with rfl | h
      · exact .inr (.inl ⟨bytes, List.mem_cons_self, rfl⟩)
      · exact .inr (.inr (List.mem_cons_of_mem _ h))
    · exact (List.mem_cons.1 h).imp_right .inr
  · exact (List.mem_cons.1 h).imp_right .inr

theorem standsIn_of_mem_scan {position : Nat} {source : List UInt8} {token : Token}
    (h : token ∈ scan position source) : StandsIn position source token := by
  induction source generalizing position token with
  | nil => cases h
  | cons byte source ih =>
    rw [scan_cons] at h
    unfold scanByte at h
    split at h
    · exact (ih h).cons
    · rename_i opening
      rcases List.mem_cons.1 h with rfl | h
      · rw [ByteClass.of_eq_opening_iff.1 opening]
        exact ⟨⟨[], source, rfl, rfl⟩, nofun⟩
      · exact (ih h).cons
    · rename_i closing
      rcases List.mem_cons.1 h with rfl | h
      · rw [ByteClass.of_eq_closing_iff.1 closing]
        exact ⟨⟨[], source, rfl, rfl⟩, nofun⟩
      · exact (ih h).cons
    · rename_i ordinary
      rcases mem_extend h with rfl | ⟨bytes, mem, rfl⟩ | h
      · refine ⟨⟨[], source, rfl, rfl⟩, ?_⟩
        rintro _ ⟨⟩
        exact ⟨List.cons_ne_nil _ _, by simpa using ordinary⟩
      · exact (ih mem).extend ordinary
      · exact (ih h).cons

/-! ### One after the other -/

theorem StandsIn.start_lt_stop {position : Nat} {source : List UInt8} {token : Token}
    (h : StandsIn position source token) : token.start < token.stop := by
  have some : token.bytes ≠ [] := by
    rw [bytes]
    cases lexeme : token.lexeme with
    | atom bytes => exact (h.proper bytes lexeme).1
    | _ => exact List.cons_ne_nil _ _
  have := List.length_pos_iff.2 some
  rw [stop]
  omega

theorem StandsIn.stop_le {position : Nat} {source : List UInt8} {token : Token}
    (h : StandsIn position source token) : token.stop ≤ position + source.length := by
  obtain ⟨before, after, rfl, start⟩ := h.placed
  simp only [stop, start, List.length_append]
  omega

private theorem pairwise_extend {position : Nat} {byte : UInt8} {later : List Token}
    (h : later.Pairwise fun t u => t.stop ≤ u.start) (apart : ∀ token ∈ later, position + 1 ≤ token.start) :
    (extend position byte later).Pairwise fun t u => t.stop ≤ u.start := by
  unfold extend
  split
  · rename_i start bytes later
    split
    · rename_i adjacent
      rw [List.pairwise_cons] at h ⊢
      refine ⟨?_, h.2⟩
      intro token mem
      have := h.1 token mem
      simp only [stop, Token.bytes, Lexeme.bytes, List.length_cons] at this ⊢
      omega
    · exact List.pairwise_cons.2 ⟨apart, h⟩
  · exact List.pairwise_cons.2 ⟨apart, h⟩

/-- Each token ends before the next one begins. -/
theorem pairwise_scan (position : Nat) (source : List UInt8) :
    (scan position source).Pairwise fun t u => t.stop ≤ u.start := by
  induction source generalizing position with
  | nil => exact .nil
  | cons byte source ih =>
    have apart : ∀ token ∈ scan (position + 1) source, position + 1 ≤ token.start :=
      fun _ => le_start_of_mem_scan
    rw [scan_cons]
    unfold scanByte
    split
    · exact ih _
    · exact List.pairwise_cons.2 ⟨apart, ih _⟩
    · exact List.pairwise_cons.2 ⟨apart, ih _⟩
    · exact pairwise_extend (ih _) apart

end Token

/-- Each token of a source ends before the next one begins. -/
theorem pairwise_tokens (source : List UInt8) : (tokens source).Pairwise fun t u => t.stop ≤ u.start :=
  Token.pairwise_scan 0 source

theorem start_lt_stop_of_mem_tokens {source : List UInt8} {token : Token} (h : token ∈ tokens source) :
    token.start < token.stop :=
  (Token.standsIn_of_mem_scan h).start_lt_stop

theorem stop_le_of_mem_tokens {source : List UInt8} {token : Token} (h : token ∈ tokens source) :
    token.stop ≤ source.length := by
  have := (Token.standsIn_of_mem_scan h).stop_le
  omega

/-- No token comes twice. -/
theorem nodup_tokens (source : List UInt8) : (tokens source).Nodup := by
  refine (pairwise_tokens source).imp_of_mem ?_
  rintro t u mem - order rfl
  have := start_lt_stop_of_mem_tokens mem
  omega

/-- The text of a token's node is the token's own bytes. -/
theorem Node.text_leaf {source : List UInt8} {token : Token} (h : token ∈ tokens source) :
    (Node.leaf token).text source = token.bytes := by
  obtain ⟨before, after, rfl, start⟩ := (Token.standsIn_of_mem_scan h).placed
  rw [Nat.zero_add] at start
  simp only [Node.text, Node.leaf, Token.stop, start]
  exact slice_append before token.bytes after

end SExprLayout
