import SExprLayout.Proofs.Source.Shift

/-!
# Reading from left to right

Symbols in a row, bytes or characters, are taken off from the left one at a time, or as many ordinary ones at a time as
there are.  So what holds of no symbols at all, and goes on to hold when a single one or a whole run is put in front,
holds of every row of symbols (`ByteClass.runInduction`).

`Token.Scanned` reads the bytes of a source that way: it passes over a blank, finds a token at a parenthesis, and at an
ordinary byte goes on to the end of the run and finds an atom.  Such a reading comes to the end of every source, and the
tokens that it finds are those of the scan (`Token.scanned_iff`).  What it finds covers every byte but the blanks
(`Token.Scanned.exists_covering`), and an atom that it finds goes as far as it can at both ends
(`Token.Scanned.maximal`).
-/

namespace SExprLayout

/-- What holds of no symbols, and of a symbol or a whole run of ordinary ones in front of others when it holds of the
others, holds of all symbols in a row. -/
@[elab_as_elim]
theorem ByteClass.runInduction {α : Type} (classOf : α → ByteClass) {motive : List α → Prop} (nil : motive [])
    (single : ∀ symbol rest, classOf symbol ≠ .ordinary → motive rest → motive (symbol :: rest))
    (run : ∀ run rest, run ≠ [] → (∀ symbol ∈ run, classOf symbol = .ordinary) →
      (∀ symbol ∈ rest.head?, classOf symbol ≠ .ordinary) → motive rest → motive (run ++ rest))
    (symbols : List α) : motive symbols := by
  match symbols with
  | [] => exact nil
  | symbol :: rest =>
    by_cases ordinary : classOf symbol = .ordinary
    · let isOrdinary (symbol : α) : Bool := classOf symbol = .ordinary
      have split : symbol :: rest = (symbol :: rest.takeWhile isOrdinary) ++ rest.dropWhile isOrdinary := by
        rw [List.cons_append, List.takeWhile_append_dropWhile]
      rw [split]
      refine run _ _ (List.cons_ne_nil _ _) ?_ ?_ (runInduction classOf nil single run _)
      · rw [List.forall_mem_cons]
        exact ⟨ordinary, fun next mem => of_decide_eq_true (List.all_eq_true.1 List.all_takeWhile next mem)⟩
      · intro next mem
        have stops := List.head?_dropWhile_not isOrdinary rest
        rw [Option.mem_def.1 mem] at stops
        simpa [isOrdinary] using stops
    · exact single symbol rest ordinary (runInduction classOf nil single run rest)
termination_by symbols.length
decreasing_by
  · exact Nat.lt_succ_of_le (List.dropWhile_suffix _).length_le
  · exact Nat.lt_succ_self _

namespace Token

/-! ### The scan, from the left -/

theorem scan_blank {byte : UInt8} (blank : ByteClass.of byte = .blank) (position : Nat) (rest : List UInt8) :
    scan position (byte :: rest) = scan (position + 1) rest := by
  rw [scan_cons, scanByte, blank]

/-- A run of ordinary bytes that is not continued is one atom. -/
theorem scan_run {run rest : List UInt8} (some : run ≠ []) (ordinary : ∀ byte ∈ run, ByteClass.of byte = .ordinary)
    (ends : ∀ byte ∈ rest.head?, ByteClass.of byte ≠ .ordinary) (position : Nat) :
    scan position (run ++ rest) = ⟨position, .atom run⟩ :: scan (position + run.length) rest := by
  obtain ⟨first, later, rfl⟩ := List.exists_cons_of_ne_nil some
  rw [scan_append (.inr ends), scan_ordinary ordinary, List.singleton_append]

/-- Reading bytes from the left, the first of them at the given position, finds the tokens. -/
inductive Scanned : Nat → List UInt8 → List Token → Prop
  | nil {position : Nat} : Scanned position [] []
  | blank {position : Nat} {byte : UInt8} {rest : List UInt8} {ts : List Token} (h : byte ∈ blankBytes)
      (later : Scanned (position + 1) rest ts) : Scanned position (byte :: rest) ts
  | opening {position : Nat} {rest : List UInt8} {ts : List Token} (later : Scanned (position + 1) rest ts) :
      Scanned position (0x28 :: rest) (⟨position, .opening⟩ :: ts)
  | closing {position : Nat} {rest : List UInt8} {ts : List Token} (later : Scanned (position + 1) rest ts) :
      Scanned position (0x29 :: rest) (⟨position, .closing⟩ :: ts)
  | atom {position : Nat} {run rest : List UInt8} {ts : List Token} (some : run ≠ [])
      (ordinary : ∀ byte ∈ run, ByteClass.of byte = .ordinary)
      (ends : ∀ byte ∈ rest.head?, ByteClass.of byte ≠ .ordinary)
      (later : Scanned (position + run.length) rest ts) :
      Scanned position (run ++ rest) (⟨position, .atom run⟩ :: ts)

/-- Reading from the left comes to the end of every source and finds the tokens of the scan. -/
theorem scanned_scan (position : Nat) (source : List UInt8) : Scanned position source (scan position source) := by
  induction source using ByteClass.runInduction ByteClass.of generalizing position with
  | nil => exact .nil
  | single byte rest other ih =>
    match h : ByteClass.of byte with
    | .blank =>
      rw [scan_blank h]
      exact .blank (ByteClass.of_eq_blank_iff.1 h) (ih _)
    | .opening =>
      obtain rfl := ByteClass.of_eq_opening_iff.1 h
      exact .opening (ih _)
    | .closing =>
      obtain rfl := ByteClass.of_eq_closing_iff.1 h
      exact .closing (ih _)
    | .ordinary => exact absurd h other
  | run run rest some ordinary ends ih =>
    rw [scan_run some ordinary ends]
    exact .atom some ordinary ends (ih _)

theorem scanned_iff {position : Nat} {source : List UInt8} {ts : List Token} :
    Scanned position source ts ↔ ts = scan position source := by
  constructor
  · intro h
    induction h with
    | nil => rfl
    | blank h _ ih => rw [scan_blank (ByteClass.of_eq_blank_iff.2 h), ih]
    | opening _ ih => rw [ih]; rfl
    | closing _ ih => rw [ih]; rfl
    | atom some ordinary ends _ ih => rw [scan_run some ordinary ends, ih]
  · rintro rfl
    exact scanned_scan position source

/-- If the token is an atom, the bytes on both sides of it, where there are any, do not belong to an atom. -/
def Maximal (source : List UInt8) (token : Token) : Prop :=
  ∀ bytes, token.lexeme = .atom bytes → ∃ before after, source = before ++ bytes ++ after ∧
    before.length = token.start ∧ (∀ byte ∈ before.getLast?, ByteClass.of byte ≠ .ordinary) ∧
    ∀ byte ∈ after.head?, ByteClass.of byte ≠ .ordinary

namespace Scanned

variable {position : Nat} {source : List UInt8} {ts : List Token}

/-- The bytes of the tokens are all bytes but the blanks. -/
theorem flatMap_bytes (h : Scanned position source ts) :
    ts.flatMap bytes = source.filter (· ∉ blankBytes) := by
  induction h with
  | nil => rfl
  | blank h _ ih => rw [ih, List.filter_cons_of_neg (by simpa using h)]
  | opening _ ih => rw [List.flatMap_cons, ih, List.filter_cons_of_pos (by decide)]; rfl
  | closing _ ih => rw [List.flatMap_cons, ih, List.filter_cons_of_pos (by decide)]; rfl
  | @atom position run rest ts _ ordinary _ _ ih =>
    have kept : run.filter (· ∉ blankBytes) = run := by
      rw [List.filter_eq_self]
      intro byte mem
      rw [decide_eq_true_eq, ← ByteClass.of_eq_blank_iff, ordinary byte mem]
      nofun
    rw [List.flatMap_cons, ih, List.filter_append, kept]
    rfl

/-- Every byte of the first token is covered by it, and every other byte by a later token if it is where the later ones
are found. -/
private theorem exists_covering_cons {token : Token} {rest : List UInt8} {ts : List Token} {byte : UInt8}
    (later : ∀ i : Nat, rest[i]? = some byte → ∃ t ∈ ts, t.start ≤ token.stop + i ∧ token.stop + i < t.stop) {i : Nat}
    (here : (token.bytes ++ rest)[i]? = some byte) :
    ∃ t ∈ token :: ts, t.start ≤ token.start + i ∧ token.start + i < t.stop := by
  have stop : token.stop = token.start + token.bytes.length := rfl
  by_cases inside : i < token.bytes.length
  · exact ⟨token, List.mem_cons_self, by omega, by omega⟩
  · rw [List.getElem?_append_right (by omega)] at here
    obtain ⟨t, mem, low, high⟩ := later _ here
    exact ⟨t, List.mem_cons_of_mem _ mem, by omega, by omega⟩

/-- Every byte that is not blank lies in a token. -/
theorem exists_covering (h : Scanned position source ts) {i : Nat} {byte : UInt8} (here : source[i]? = some byte)
    (visible : byte ∉ blankBytes) : ∃ token ∈ ts, token.start ≤ position + i ∧ position + i < token.stop := by
  induction h generalizing i with
  | nil => cases here
  | blank h _ ih =>
    cases i with
    | zero =>
      cases here
      exact absurd h visible
    | succ i =>
      obtain ⟨token, mem, low, high⟩ := ih here
      exact ⟨token, mem, by omega, by omega⟩
  | opening _ ih => exact exists_covering_cons (fun _ => ih) here
  | closing _ ih => exact exists_covering_cons (fun _ => ih) here
  | atom _ _ _ _ ih => exact exists_covering_cons (fun _ => ih) here

/-- Behind one more byte that belongs to no atom, the later tokens are found as they are behind what was before. -/
private theorem maximal_behind {byte : UInt8} {before rest : List UInt8} {ts : List Token}
    (other : ByteClass.of byte ≠ .ordinary) (start : before.length = position)
    (later : ∀ {before : List UInt8}, before.length = position + 1 → Apart before rest →
      ∀ token ∈ ts, token.Maximal (before ++ rest)) :
    ∀ token ∈ ts, token.Maximal (before ++ byte :: rest) := by
  have last : (before ++ [byte]).getLast? = some byte := List.getLast?_concat
  have behind := later (by simp [start]) (apart_of_getLast? last other)
  rwa [List.append_assoc] at behind

/-- An atom that is found behind other bytes goes as far as it can, if no atom runs over from these. -/
theorem maximal (h : Scanned position source ts) {before : List UInt8} (start : before.length = position)
    (apart : Apart before source) : ∀ token ∈ ts, token.Maximal (before ++ source) := by
  induction h generalizing before with
  | nil => nofun
  | blank h _ ih =>
    refine maximal_behind ?_ start ih
    rw [ByteClass.of_eq_blank_iff.2 h]
    nofun
  | opening _ ih => exact List.forall_mem_cons.2 ⟨nofun, maximal_behind (by decide) start ih⟩
  | closing _ ih => exact List.forall_mem_cons.2 ⟨nofun, maximal_behind (by decide) start ih⟩
  | @atom position run rest ts some ordinary ends _ ih =>
    have later := @ih (before ++ run) (by simp [start]) (.inr ends)
    rw [List.append_assoc] at later
    refine List.forall_mem_cons.2 ⟨?_, later⟩
    rintro _ ⟨⟩
    refine ⟨before, rest, by rw [List.append_assoc], start, ?_, ends⟩
    rcases apart with apart | apart
    · exact apart
    · obtain ⟨first, others, rfl⟩ := List.exists_cons_of_ne_nil some
      exact absurd (ordinary first List.mem_cons_self) (apart first rfl)

end Scanned

end Token

end SExprLayout
