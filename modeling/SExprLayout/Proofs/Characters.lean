import Mathlib.Data.List.SplitBy
import SExprLayout.Format
import SExprLayout.Proofs.Expr.Fault
import SExprLayout.Proofs.Source.LeftToRight

/-!
# Tokens of a text, character by character

A text is cut into tokens by its characters as a source is by its bytes (`words`): between any two neighbours, unless
both belong to an atom, and the blanks are dropped.  A source that encodes a text is cut by the encodings of these
tokens (`Token.bytes_scan_encode`), because all bytes of a character have the class of the character.  So the tokens of
a text can all be decoded, and reading the text never fails for an atom that is not UTF-8.

The other bytes of a source are ASCII, so a source is UTF-8 as a whole if all its atoms are
(`Token.Scanned.isValid`).  Both together are `decode_tokens`.
-/

namespace SExprLayout

/-- The tokens of characters in a row: these are cut wherever not both neighbours belong to an atom, and the blanks
among them are dropped. -/
def words (cs : List Char) : List (List Char) :=
  (cs.splitBy fun c d => c ∉ delimiters ∧ d ∉ delimiters).filter fun word =>
    word.all fun c => ByteClass.ofChar c ≠ .blank

/-! ### The words of a text, from the left -/

section

variable {rest run before after : List Char}

theorem words_append (apart : ∀ c ∈ before.getLast?, ∀ d ∈ after.head?, ¬(c ∉ delimiters ∧ d ∉ delimiters)) :
    words (before ++ after) = words before ++ words after := by
  have cut : (before ++ after).splitBy (fun c d => c ∉ delimiters ∧ d ∉ delimiters) =
      before.splitBy (fun c d => c ∉ delimiters ∧ d ∉ delimiters) ++
        after.splitBy fun c d => c ∉ delimiters ∧ d ∉ delimiters :=
    List.splitBy_append fun c last d first => decide_eq_false (apart c last d first)
  rw [words, cut, List.filter_append, words, words]

theorem words_cons {c : Char} (h : ByteClass.ofChar c ≠ .ordinary) (rest : List Char) :
    words (c :: rest) = words [c] ++ words rest := by
  refine @words_append [c] rest ?_
  rintro d isLast e - ⟨notDelimiter, -⟩
  cases isLast
  exact h (ByteClass.ofChar_eq_ordinary_iff.2 notDelimiter)

theorem words_run (some : run ≠ []) (ordinary : ∀ c ∈ run, ByteClass.ofChar c = .ordinary)
    (ends : ∀ c ∈ rest.head?, ByteClass.ofChar c ≠ .ordinary) : words (run ++ rest) = run :: words rest := by
  have chain : run.IsChain fun c d => decide (c ∉ delimiters ∧ d ∉ delimiters) = true := by
    refine List.Pairwise.isChain (List.pairwise_of_forall_mem_list fun c mem d mem' => decide_eq_true ⟨?_, ?_⟩)
    · exact ByteClass.ofChar_eq_ordinary_iff.1 (ordinary c mem)
    · exact ByteClass.ofChar_eq_ordinary_iff.1 (ordinary d mem')
  have kept : (run.all fun c => ByteClass.ofChar c ≠ .blank) = true := by
    rw [List.all_eq_true]
    intro c mem
    rw [ordinary c mem]
    rfl
  have alone : words run = [run] := by
    rw [words, List.splitBy_of_isChain some chain]
    exact List.filter_eq_self.2 (List.forall_mem_singleton.2 kept)
  rw [words_append, alone, List.singleton_append]
  rintro c - d first ⟨-, notDelimiter⟩
  exact ends d first (ByteClass.ofChar_eq_ordinary_iff.2 notDelimiter)

/-- Characters that belong to an atom, as many in a row as one likes, are never cut apart. -/
theorem exists_word_of_infix {cs run : List Char} (some : run ≠ []) (within : run <:+: cs)
    (ordinary : ∀ c ∈ run, ByteClass.ofChar c = .ordinary) : ∃ word ∈ words cs, run <:+: word := by
  induction cs using ByteClass.runInduction ByteClass.ofChar with
  | nil => exact absurd (List.infix_nil.1 within) some
  | single c rest other ih =>
    rcases List.infix_cons_iff.1 within with front | inside
    · obtain ⟨d, later, rfl⟩ := List.exists_cons_of_ne_nil some
      obtain ⟨rfl, -⟩ := List.cons_prefix_cons.1 front
      exact absurd (ordinary d List.mem_cons_self) other
    · obtain ⟨word, mem, inWord⟩ := ih inside
      rw [words_cons other]
      exact ⟨word, List.mem_append_right _ mem, inWord⟩
  | run first rest some' ordinary' ends ih =>
    rw [words_run some' ordinary' ends]
    rcases List.infix_append_iff.1 within with inside | inside | ⟨front, back, rfl, isSuffix, isPrefix⟩
    · exact ⟨first, List.mem_cons_self, inside⟩
    · obtain ⟨word, mem, inWord⟩ := ih inside
      exact ⟨word, List.mem_cons_of_mem _ mem, inWord⟩
    · -- running over the end of the first word would take a delimiter in, unless nothing is behind the end
      cases back with
      | nil => exact ⟨first, List.mem_cons_self, by rw [List.append_nil]; exact isSuffix.isInfix⟩
      | cons d back =>
        obtain ⟨later, rfl⟩ := isPrefix
        exact absurd (ordinary d (by simp)) (ends d rfl)

end

/-! ### The tokens of encoded characters -/

namespace ByteClass

theorem ofChar_eq_opening_iff {c : Char} : ofChar c = opening ↔ c = '(' := by
  unfold ofChar
  grind

theorem ofChar_eq_closing_iff {c : Char} : ofChar c = closing ↔ c = ')' := by
  unfold ofChar
  grind

/-- The encoding of characters begins with a byte of the class of the first character. -/
private theorem of_mem_head?_encode {cs : List Char} {byte : UInt8}
    (h : byte ∈ (cs.flatMap String.utf8EncodeChar).head?) : ∃ c ∈ cs.head?, of byte = ofChar c := by
  cases cs with
  | nil => cases h
  | cons c rest =>
    rw [List.flatMap_cons, List.head?_append_of_ne_nil _ String.utf8EncodeChar_ne_nil] at h
    exact ⟨c, rfl, of_mem_utf8EncodeChar (List.mem_of_mem_head? h)⟩

end ByteClass

namespace Token

open ByteClass (of_mem_utf8EncodeChar)

/-- A character that belongs to no atom is a token of its own, or none if it is a blank. -/
private theorem bytes_scan_encodeChar {c : Char} (other : ByteClass.ofChar c ≠ .ordinary) (position : Nat) :
    (scan position (String.utf8EncodeChar c)).map bytes =
      (words [c]).map fun word => word.flatMap String.utf8EncodeChar := by
  match h : ByteClass.ofChar c with
  | .ordinary => exact absurd h other
  | .opening =>
    obtain rfl := ByteClass.ofChar_eq_opening_iff.1 h
    rfl
  | .closing =>
    obtain rfl := ByteClass.ofChar_eq_closing_iff.1 h
    rfl
  | .blank =>
    have blank : ∀ byte ∈ String.utf8EncodeChar c, ByteClass.of byte = .blank := by
      intro byte mem
      rw [of_mem_utf8EncodeChar mem, h]
    have dropped : words [c] = [] := by
      show [[c]].filter (fun word => word.all fun c => ByteClass.ofChar c ≠ .blank) = []
      simp [h]
    rw [scan_eq_nil_iff.2 blank, dropped]
    rfl

/-- The tokens of encoded characters are the encodings of their words. -/
theorem bytes_scan_encode (cs : List Char) (position : Nat) :
    (scan position (cs.flatMap String.utf8EncodeChar)).map bytes =
      (words cs).map fun word => word.flatMap String.utf8EncodeChar := by
  induction cs using ByteClass.runInduction ByteClass.ofChar generalizing position with
  | nil => rfl
  | single c rest other ih =>
    have seam : ∀ byte ∈ (String.utf8EncodeChar c).getLast?, ByteClass.of byte ≠ .ordinary := by
      intro byte last
      rwa [of_mem_utf8EncodeChar (List.mem_of_mem_getLast? last)]
    rw [List.flatMap_cons, scan_append (.inl seam), List.map_append, ih, bytes_scan_encodeChar other,
      words_cons other rest, List.map_append]
  | run run rest some ordinary ends ih =>
    obtain ⟨first, others, rfl⟩ := List.exists_cons_of_ne_nil some
    have encoded : (first :: others).flatMap String.utf8EncodeChar ≠ [] := by
      rw [List.flatMap_cons]
      exact List.append_ne_nil_of_left_ne_nil String.utf8EncodeChar_ne_nil _
    have ordinary' : ∀ byte ∈ (first :: others).flatMap String.utf8EncodeChar, ByteClass.of byte = .ordinary := by
      intro byte mem
      obtain ⟨c, isChar, mem⟩ := List.mem_flatMap.1 mem
      rw [of_mem_utf8EncodeChar mem, ordinary c isChar]
    have ends' : ∀ byte ∈ (rest.flatMap String.utf8EncodeChar).head?, ByteClass.of byte ≠ .ordinary := by
      intro byte mem
      obtain ⟨c, isFirst, e⟩ := ByteClass.of_mem_head?_encode mem
      rw [e]
      exact ends c isFirst
    rw [List.flatMap_append, scan_run encoded ordinary' ends', List.map_cons, ih, words_run some ordinary ends,
      List.map_cons]
    rfl

end Token

theorem bytes_tokens_encode (text : String) :
    (tokens (Utf8.encode text)).map Token.bytes =
      (words text.toList).map fun word => Utf8.encode (String.ofList word) := by
  simp only [Utf8.encode_eq_flatMap, String.toList_ofList]
  exact Token.bytes_scan_encode text.toList 0

/-! ### Sources that are UTF-8 -/

/-- A source is UTF-8 if all its atoms are. -/
theorem Token.Scanned.isValid {position : Nat} {source : List UInt8} {ts : List Token} (h : Scanned position source ts)
    (valid : ∀ token ∈ ts, ∀ bytes, token.lexeme = .atom bytes → Utf8.IsValid bytes) : Utf8.IsValid source := by
  induction h with
  | nil => exact Utf8.isValid_encode ""
  | @blank position byte rest ts h _ ih =>
    have each : (blankBytes.all fun byte => Utf8.IsValid [byte]) = true := by decide
    have alone : Utf8.IsValid [byte] := of_decide_eq_true (List.all_eq_true.1 each byte h)
    exact alone.append (ih valid)
  | opening _ ih =>
    have alone : Utf8.IsValid [0x28] := Utf8.isValid_encode "("
    exact alone.append (ih (List.forall_mem_cons.1 valid).2)
  | closing _ ih =>
    have alone : Utf8.IsValid [0x29] := Utf8.isValid_encode ")"
    exact alone.append (ih (List.forall_mem_cons.1 valid).2)
  | atom _ _ _ _ ih =>
    rw [List.forall_mem_cons] at valid
    exact (valid.1 _ rfl).append (ih valid.2)

/-- All tokens of a source that is UTF-8 are UTF-8. -/
theorem isValid_of_mem_tokens {source : List UInt8} (valid : Utf8.IsValid source) {token : Token}
    (mem : token ∈ tokens source) : Utf8.IsValid token.bytes := by
  obtain ⟨text, isText⟩ := valid
  rw [Utf8.decode?_eq_some_iff.1 isText] at mem
  have among : token.bytes ∈ (tokens (Utf8.encode text)).map Token.bytes := List.mem_map_of_mem mem
  rw [bytes_tokens_encode] at among
  obtain ⟨word, -, e⟩ := List.mem_map.1 among
  rw [← e]
  exact Utf8.isValid_encode _

/-- Reading a source that is UTF-8 does not fail because of an atom that is not. -/
theorem Expr.parse_ne_notUtf8 {source : List UInt8} (valid : Utf8.IsValid source) (start stop : Int) :
    parse source ≠ .error (.notUtf8 start stop) := by
  intro failed
  cases forest : Node.forest (tokens source) with
  | nil =>
    rw [parse_eq, forest] at failed
    cases failed
  | cons first rest =>
    obtain ⟨token, mem, atFault⟩ := List.exists_of_findSome?_eq_some ((parse_eq_error_iff forest).1 failed)
    have isToken : token ∈ tokens source := Node.mem_tokens_of_mem_contents mem
    rcases Token.fault_eq_some_iff.1 atFault with ⟨-, invalid, -⟩ | ⟨-, e⟩
    · have sound := isValid_of_mem_tokens valid isToken
      rw [← Node.text_leaf isToken] at sound
      exact invalid sound
    · cases e

/-- The tokens of a text, decoded, are its words, so that reading a text never fails for an atom that is not UTF-8; and
no character but a delimiter, which is ASCII, ends a word.  The atoms of a source are all UTF-8 if and only if the
source is UTF-8 as a whole. -/
theorem decode_tokens :
    (∀ text : String,
      ((tokens (Utf8.encode text)).map fun token => Utf8.decode? ((Node.leaf token).text (Utf8.encode text))) =
          (words text.toList).map (fun word => some (String.ofList word)) ∧
        (∀ start stop, Expr.ofArgument (.text text) ≠ .error (.notUtf8 start stop)) ∧
        ∀ run, run ≠ [] → run <:+: text.toList → (∀ c ∈ run, 0x80 ≤ c.toNat ∨ c ∉ delimiters) →
          ∃ word ∈ words text.toList, run <:+: word) ∧
      ∀ source : List UInt8,
        (∀ node ∈ (tokens source).map Node.leaf, node.kind = .atom → Utf8.IsValid (node.text source)) ↔
          Utf8.IsValid source := by
  refine ⟨fun text => ⟨?_, ?_, ?_⟩, fun source => ⟨fun each => ?_, fun valid => ?_⟩⟩
  · have decoded : ∀ token ∈ tokens (Utf8.encode text),
        Utf8.decode? ((Node.leaf token).text (Utf8.encode text)) = Utf8.decode? token.bytes :=
      fun token mem => by rw [Node.text_leaf mem]
    have texts := congrArg (List.map Utf8.decode?) (bytes_tokens_encode text)
    rw [List.map_map, List.map_map] at texts
    rw [List.map_congr_left decoded]
    refine texts.trans (List.map_congr_left fun word _ => ?_)
    exact Utf8.decode?_encode _
  · exact Expr.parse_ne_notUtf8 (Utf8.isValid_encode text)
  · intro run some within regular
    refine exists_word_of_infix some within fun c mem => ?_
    rcases regular c mem with high | notDelimiter
    · exact ByteClass.ofChar_high high
    · exact ByteClass.ofChar_eq_ordinary_iff.2 notDelimiter
  · refine (Token.scanned_scan 0 source).isValid fun token mem bytes lexeme => ?_
    have valid := each _ (List.mem_map_of_mem mem) (by rw [Node.leaf, lexeme]; rfl)
    rwa [Node.text_leaf mem, Token.bytes, lexeme] at valid
  · refine List.forall_mem_map.2 fun token mem _ => ?_
    rw [Node.text_leaf mem]
    exact isValid_of_mem_tokens valid mem

/-- A no-break space, written as `~` here, belongs to an atom, so `(é~x y` is cut into three tokens; and a source with
an atom that breaks off inside a character is not UTF-8. -/
theorem decode_tokens_no_break_space :
    ((tokens (Utf8.encode "(é\u00a0x y")).map fun token =>
        Utf8.decode? ((Node.leaf token).text (Utf8.encode "(é\u00a0x y"))) =
      [some "(", some "é\u00a0x", some "y"] ∧
    (∃ word ∈ words "(é\u00a0x y".toList, "é\u00a0x".toList <:+: word) ∧
    ¬Utf8.IsValid [0x61, 0x20, 0xe3, 0x80] := by
  have text := decode_tokens.1 "(é\u00a0x y"
  refine ⟨?_, ?_, fun valid => ?_⟩
  · rw [text.1]
    decide
  · refine text.2.2 _ (by decide) ⟨['('], [' ', 'y'], by decide⟩ ?_
    have each : ("é\u00a0x".toList.all fun c => 0x80 ≤ c.toNat ∨ c ∉ delimiters) = true := by decide
    exact fun c mem => of_decide_eq_true (List.all_eq_true.1 each c mem)
  · have node : Node.leaf ⟨2, .atom [0xe3, 0x80]⟩ ∈ (tokens [0x61, 0x20, 0xe3, 0x80]).map Node.leaf :=
      List.mem_map_of_mem (by decide)
    exact absurd ((decode_tokens.2 _).2 valid _ node rfl) (by decide)

end SExprLayout
