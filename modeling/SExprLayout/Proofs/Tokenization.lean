import Mathlib.Data.List.Sort
import SExprLayout.Proofs.Source.LeftToRight

/-!
# Which nodes are the tokens of a source

A `Tokenization` is a row of nodes that could be the tokens of a source as far as positions, kinds and bytes can tell:
they stand one after the other and cover every byte but the blanks, each parenthesis is a node of its own, and what is
left are atoms that are continued by no byte on either side.

Nothing else is free.  An atom is determined by any index that it covers (`Node.IsAtom.eq_of_covers`), so two
tokenizations of a source have the same nodes (`Tokenization.subset`), and because these stand one after the other they
are the same row.  The nodes of the tokens are a tokenization, hence the only one (`tokenization_iff`).
-/

namespace SExprLayout

/-- The bytes that do not belong to an atom: the blanks and the two parentheses. -/
def delimiterBytes : List UInt8 := blankBytes ++ [0x28, 0x29]

theorem ByteClass.of_ne_ordinary_iff {byte : UInt8} : of byte ≠ ordinary ↔ byte ∈ delimiterBytes := by
  have blank := @of_eq_blank_iff byte
  have opening := @of_eq_opening_iff byte
  have closing := @of_eq_closing_iff byte
  rw [delimiterBytes, List.mem_append, ← blank, List.mem_cons, List.mem_singleton, ← opening, ← closing]
  cases of byte <;> simp

/-! ### The conditions -/

namespace Node

/-- The node of a single byte. -/
def single (kind : Kind) (i : Nat) : Node := ⟨kind, i, i + 1, []⟩

/-- The byte at the index is one of those that the node covers. -/
def Covers (node : Node) (i : Nat) : Prop := node.start ≤ i ∧ i < node.stop

/-- The node is an atom without a delimiter in it, and there is nothing but a delimiter or an end of the source on
either side of it. -/
structure IsAtom (source : List UInt8) (node : Node) : Prop where
  kind : node.kind = .atom
  inner : ∀ (i : Nat) (byte : UInt8), source[i]? = some byte → node.Covers i → byte ∉ delimiterBytes
  before : ∀ (i : Nat) (byte : UInt8), source[i]? = some byte → i + 1 = node.start → byte ∈ delimiterBytes
  behind : ∀ (i : Nat) (byte : UInt8), source[i]? = some byte → i = node.stop → byte ∈ delimiterBytes

end Node

/-- The nodes cut the source into tokens. -/
structure Tokenization (source : List UInt8) (nodes : List Node) : Prop where
  bare : ∀ node ∈ nodes, node.children = []
  inside : ∀ node ∈ nodes, 0 ≤ node.start ∧ node.stop ≤ source.length
  inOrder : Node.InOrder nodes
  covered_iff : ∀ (i : Nat) (byte : UInt8), source[i]? = some byte →
    ((∃ node ∈ nodes, node.Covers i) ↔ byte ∉ blankBytes)
  opening : ∀ i : Nat, source[i]? = some 0x28 → .single .opening i ∈ nodes
  closing : ∀ i : Nat, source[i]? = some 0x29 → .single .closing i ∈ nodes
  each : ∀ node ∈ nodes, (∃ i : Nat, source[i]? = some 0x28 ∧ node = .single .opening i) ∨
    (∃ i : Nat, source[i]? = some 0x29 ∧ node = .single .closing i) ∨ node.IsAtom source

/-! ### There is at most one -/

namespace Node

variable {source : List UInt8} {node node' : Node}

theorem InOrder.nodup {nodes : List Node} (h : InOrder nodes) : nodes.Nodup := by
  refine h.apart.imp_of_mem ?_
  rintro node _ mem - order rfl
  have := h.proper node mem
  omega

/-- One atom does not begin inside another. -/
private theorem IsAtom.start_le (h : node.IsAtom source) (h' : node'.IsAtom source) {i : Nat}
    (inside : i < source.length) (covers : node.Covers i) (covers' : node'.Covers i) (first : 0 ≤ node.start) :
    node'.start ≤ node.start := by
  by_contra later
  obtain ⟨j, start⟩ := Int.eq_ofNat_of_zero_le (show 0 ≤ node'.start - 1 by omega)
  unfold Covers at covers covers'
  have here : source[j]? = some source[j] := List.getElem?_eq_getElem (by omega)
  exact h.inner j _ here ⟨by omega, by omega⟩ (h'.before j _ here (by omega))

/-- One atom does not end inside another. -/
private theorem IsAtom.le_stop (h : node.IsAtom source) (h' : node'.IsAtom source) {i : Nat} (covers : node.Covers i)
    (covers' : node'.Covers i) (last : node.stop ≤ source.length) : node.stop ≤ node'.stop := by
  by_contra earlier
  unfold Covers at covers covers'
  obtain ⟨j, stop⟩ := Int.eq_ofNat_of_zero_le (show 0 ≤ node'.stop by omega)
  have here : source[j]? = some source[j] := List.getElem?_eq_getElem (by omega)
  exact h.inner j _ here ⟨by omega, by omega⟩ (h'.behind j _ here (by omega))

/-- Two atoms that cover the same byte are the same. -/
theorem IsAtom.eq_of_covers (h : node.IsAtom source) (h' : node'.IsAtom source) (bare : node.children = [])
    (bare' : node'.children = []) (inside : 0 ≤ node.start ∧ node.stop ≤ source.length)
    (inside' : 0 ≤ node'.start ∧ node'.stop ≤ source.length) {i : Nat} (covers : node.Covers i)
    (covers' : node'.Covers i) : node = node' := by
  have within : i < source.length := by
    unfold Covers at covers
    omega
  have start : node.start = node'.start :=
    Int.le_antisymm (h'.start_le h within covers' covers inside'.1) (h.start_le h' within covers covers' inside.1)
  have stop : node.stop = node'.stop :=
    Int.le_antisymm (h.le_stop h' covers covers' inside.2) (h'.le_stop h covers' covers inside'.2)
  obtain ⟨kind, _, _, children⟩ := node
  obtain ⟨kind', _, _, children'⟩ := node'
  cases start
  cases stop
  cases h.kind
  cases h'.kind
  cases bare
  cases bare'
  rfl

/-- A node of a single parenthesis covers no byte of an atom. -/
private theorem IsAtom.not_covers_single (h : node.IsAtom source) {kind : Kind} {byte : UInt8} {i j : Nat}
    (covers : node.Covers j) (here : source[i]? = some byte) (delimiter : byte ∈ delimiterBytes) :
    ¬(single kind i).Covers j := by
  intro covers'
  unfold Covers single at covers'
  obtain rfl : i = j := by
    simp only at covers'
    omega
  exact h.inner i byte here covers delimiter

end Node

namespace Tokenization

variable {source : List UInt8} {nodes nodes' : List Node}

/-- Every node of a tokenization is in every other. -/
theorem subset (h : Tokenization source nodes) (h' : Tokenization source nodes') : nodes ⊆ nodes' := by
  intro node mem
  rcases h.each node mem with ⟨i, here, rfl⟩ | ⟨i, here, rfl⟩ | isAtom
  · exact h'.opening i here
  · exact h'.closing i here
  · -- the first byte of the atom lies in a node of the other tokenization, which is an atom too
    have proper := h.inOrder.proper node mem
    have inside := h.inside node mem
    obtain ⟨i, start⟩ := Int.eq_ofNat_of_zero_le inside.1
    have covers : node.Covers i := ⟨by omega, by omega⟩
    have here : source[i]? = some source[i] := List.getElem?_eq_getElem (by omega)
    have visible : source[i] ∉ blankBytes :=
      fun blank => isAtom.inner i _ here covers (List.mem_append_left _ blank)
    obtain ⟨node', mem', covers'⟩ := (h'.covered_iff i _ here).2 visible
    rcases h'.each node' mem' with ⟨j, there, rfl⟩ | ⟨j, there, rfl⟩ | isAtom'
    · exact absurd covers' (isAtom.not_covers_single covers there (by decide))
    · exact absurd covers' (isAtom.not_covers_single covers there (by decide))
    · rwa [isAtom.eq_of_covers isAtom' (h.bare node mem) (h'.bare node' mem') inside (h'.inside node' mem') covers
        covers']

/-- A source has at most one tokenization. -/
theorem eq (h : Tokenization source nodes) (h' : Tokenization source nodes') : nodes = nodes' := by
  have same : nodes.Perm nodes' := (List.perm_ext_iff_of_nodup h.inOrder.nodup h'.inOrder.nodup).2 fun node =>
    ⟨fun mem => h.subset h' mem, fun mem => h'.subset h mem⟩
  refine same.eq_of_pairwise ?_ h.inOrder.apart h'.inOrder.apart
  intro node node' mem mem' order order'
  have := h.inOrder.proper node mem
  have := h'.inOrder.proper node' mem'
  omega

end Tokenization

/-! ### There is one -/

namespace Token

variable {source : List UInt8} {token : Token}

/-- The byte at an index that a token covers is one of the token's bytes. -/
private theorem mem_bytes_of_covers (h : token ∈ tokens source) {i : Nat} {byte : UInt8}
    (here : source[i]? = some byte) (covers : (Node.leaf token).Covers i) : byte ∈ token.bytes := by
  obtain ⟨before, after, rfl, start⟩ := (standsIn_of_mem_scan h).placed
  obtain ⟨low, high⟩ := covers
  simp only [Node.leaf, stop] at low high
  rw [List.append_assoc, List.getElem?_append_right (by omega), List.getElem?_append_left (by omega)] at here
  exact List.mem_of_getElem? here

/-- Where a token begins, its first byte stands. -/
private theorem getElem?_start (h : token ∈ tokens source) : source[token.start]? = token.bytes.head? := by
  obtain ⟨before, after, rfl, start⟩ := (standsIn_of_mem_scan h).placed
  have proper := start_lt_stop_of_mem_tokens h
  rw [stop] at proper
  rw [List.append_assoc, List.getElem?_append_right (by omega), List.getElem?_append_left (by omega), start,
    Nat.zero_add, Nat.sub_self, List.head?_eq_getElem?]

private theorem isAtom_leaf {bytes : List UInt8} (h : token ∈ tokens source) (lexeme : token.lexeme = .atom bytes) :
    (Node.leaf token).IsAtom source := by
  have maximal : token.Maximal source := @Scanned.maximal 0 source _ (scanned_scan 0 source) [] rfl (.inl nofun) token h
  obtain ⟨before, after, split, start, front, back⟩ := maximal bytes lexeme
  have stop : token.stop = (before ++ bytes).length := by
    rw [Token.stop, Token.bytes, lexeme, Lexeme.bytes, List.length_append, start]
  refine ⟨by rw [Node.leaf, lexeme]; rfl, ?_, ?_, ?_⟩
  · intro i byte here covers
    have mem := mem_bytes_of_covers h here covers
    rw [Token.bytes, lexeme] at mem
    rw [← ByteClass.of_ne_ordinary_iff, Decidable.not_not]
    exact ((standsIn_of_mem_scan h).proper bytes lexeme).2 byte mem
  · intro i byte here next
    have last : before.length = i + 1 := by
      simp only [Node.leaf] at next
      omega
    rw [split, List.append_assoc, List.getElem?_append_left (by omega)] at here
    apply ByteClass.of_ne_ordinary_iff.1 (front byte _)
    rw [List.getLast?_eq_getElem?, last, Nat.add_sub_cancel, here]
    rfl
  · intro i byte here next
    have first : i = (before ++ bytes).length := by
      simp only [Node.leaf] at next
      omega
    rw [split, first, List.getElem?_append_right (Nat.le_refl _), Nat.sub_self] at here
    apply ByteClass.of_ne_ordinary_iff.1 (back byte _)
    rw [List.head?_eq_getElem?, here]
    rfl

/-- The token of a parenthesis has a single byte, which stands where the token begins. -/
private theorem leaf_of_parenthesis (h : token ∈ tokens source) {byte : UInt8} (spelled : token.bytes = [byte]) :
    source[token.start]? = some byte ∧ Node.leaf token = .single (Node.kindOf token.lexeme) token.start := by
  rw [getElem?_start h, spelled, Node.leaf, stop, spelled]
  exact ⟨rfl, rfl⟩

/-- Each parenthesis is a token. -/
private theorem single_mem (lexeme : Lexeme) {byte : UInt8} (spelled : lexeme.bytes = [byte])
    (parenthesis : lexeme = .opening ∨ lexeme = .closing) {i : Nat} (here : source[i]? = some byte) :
    .single (Node.kindOf lexeme) i ∈ (tokens source).map Node.leaf := by
  have delimiter : byte ∈ [0x28, 0x29] := by
    rcases parenthesis with rfl | rfl <;> cases spelled <;> decide
  have visible : byte ∉ blankBytes := by
    simp only [List.mem_cons, List.not_mem_nil, or_false] at delimiter
    rcases delimiter with rfl | rfl <;> decide
  obtain ⟨token, mem, low, high⟩ := (scanned_scan 0 source).exists_covering here visible
  rw [Nat.zero_add] at low high
  have among := mem_bytes_of_covers mem here ⟨Int.ofNat_le.2 low, Int.ofNat_lt.2 high⟩
  have same : token.lexeme = lexeme := by
    match kind : token.lexeme with
    | .atom bytes =>
      have ordinary := ((standsIn_of_mem_scan mem).proper bytes kind).2
      rw [Token.bytes, kind] at among
      exact absurd (ordinary byte among) (ByteClass.of_ne_ordinary_iff.2 (List.mem_append_right _ delimiter))
    | .opening =>
      rw [Token.bytes, kind] at among
      cases List.mem_singleton.1 among
      exact (parenthesis.resolve_right (by rintro rfl; cases spelled)).symm
    | .closing =>
      rw [Token.bytes, kind] at among
      cases List.mem_singleton.1 among
      exact (parenthesis.resolve_left (by rintro rfl; cases spelled)).symm
  have one : token.bytes = [byte] := by rw [Token.bytes, same, spelled]
  obtain rfl : token.start = i := by
    rw [stop, one, List.length_singleton] at high
    omega
  exact List.mem_map.2 ⟨token, mem, by rw [(leaf_of_parenthesis mem one).2, same]⟩

end Token

/-- The nodes of the tokens cut the source into tokens. -/
theorem tokenization_tokens (source : List UInt8) : Tokenization source ((tokens source).map Node.leaf) where
  bare := List.forall_mem_map.2 fun _ _ => rfl
  inside := List.forall_mem_map.2 fun token mem =>
    ⟨Int.natCast_nonneg _, Int.ofNat_le.2 (stop_le_of_mem_tokens mem)⟩
  inOrder := Node.inOrder_leaves (List.Sublist.refl _)
  covered_iff := by
    intro i byte here
    constructor
    · rintro ⟨node, mem, covers⟩
      obtain ⟨token, isToken, rfl⟩ := List.mem_map.1 mem
      have among := Token.mem_bytes_of_covers isToken here covers
      have kept : byte ∈ source.filter (· ∉ blankBytes) := by
        rw [← (Token.scanned_scan 0 source).flatMap_bytes]
        exact List.mem_flatMap.2 ⟨token, isToken, among⟩
      exact of_decide_eq_true (List.mem_filter.1 kept).2
    · intro visible
      obtain ⟨token, mem, low, high⟩ := (Token.scanned_scan 0 source).exists_covering here visible
      rw [Nat.zero_add] at low high
      exact ⟨_, List.mem_map_of_mem mem, Int.ofNat_le.2 low, Int.ofNat_lt.2 high⟩
  opening _ here := Token.single_mem .opening rfl (.inl rfl) here
  closing _ here := Token.single_mem .closing rfl (.inr rfl) here
  each := by
    refine List.forall_mem_map.2 fun token mem => ?_
    match lexeme : token.lexeme with
    | .opening =>
      have spelled : token.bytes = [0x28] := by rw [Token.bytes, lexeme]; rfl
      obtain ⟨here, node⟩ := Token.leaf_of_parenthesis mem spelled
      rw [lexeme] at node
      exact .inl ⟨token.start, here, node⟩
    | .closing =>
      have spelled : token.bytes = [0x29] := by rw [Token.bytes, lexeme]; rfl
      obtain ⟨here, node⟩ := Token.leaf_of_parenthesis mem spelled
      rw [lexeme] at node
      exact .inr (.inl ⟨token.start, here, node⟩)
    | .atom bytes => exact .inr (.inr (Token.isAtom_leaf mem lexeme))

/-- The nodes of the tokens are the one way to cut a source into tokens.  Reading the source from the left comes to its
end and finds these tokens, and their texts in a row are the source without its blanks. -/
theorem tokenization_iff (source : List UInt8) :
    (∀ nodes, Tokenization source nodes ↔ nodes = (tokens source).map Node.leaf) ∧
      (∀ ts, Token.Scanned 0 source ts ↔ ts = tokens source) ∧
      ((tokens source).map Node.leaf).flatMap (Node.text source) = source.filter (· ∉ blankBytes) := by
  refine ⟨fun nodes => ⟨fun h => h.eq (tokenization_tokens source), ?_⟩, fun ts => Token.scanned_iff, ?_⟩
  · rintro rfl
    exact tokenization_tokens source
  · rw [List.flatMap_map, ← (Token.scanned_scan 0 source).flatMap_bytes]
    exact List.flatMap_congr fun token mem => Node.text_leaf mem

/-- The bytes of a blank, `(é`, a tab and `b)` are cut into four tokens. -/
theorem tokenization_iff_accented :
    Tokenization [0x20, 0x28, 0xc3, 0xa9, 0x09, 0x62, 0x29]
      [⟨.opening, 1, 2, []⟩, ⟨.atom, 2, 4, []⟩, ⟨.atom, 5, 6, []⟩, ⟨.closing, 6, 7, []⟩] :=
  ((tokenization_iff _).1 _).2 rfl

end SExprLayout
