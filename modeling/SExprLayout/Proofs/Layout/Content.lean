import Mathlib.Data.List.Chain
import SExprLayout.Layout.Flat
import SExprLayout.Proofs.Expr.Closed
import SExprLayout.Proofs.Source.Position

/-!
# What a layout holds

Line ends and spaces are where the settings decide.  The atoms of a layout, and the lexemes that it is written in, are
those of the expression for all settings and from any cursor (`atoms_layout`, `lexemes_layout`).  No two atoms stand
side by side (`isChain_apart_layout`), so if the atoms are clean, the written text is scanned as the expression's own
lexemes (`lexemes_tokens_format`).
-/

namespace SExprLayout

namespace Piece

/-- The atom that the piece is, if it is one. -/
def atoms : Piece → List Atom
  | atom a => [a]
  | _ => []

/-- The lexemes that the piece is written in. -/
def lexemes : Piece → List Lexeme
  | opening => [.opening]
  | closing => [.closing]
  | empty => [.opening, .closing]
  | atom a => [.atom (Utf8.encode a.text)]
  | space => []
  | newline _ => []

/-- At least one of the two is not an atom. -/
def Apart (p q : Piece) : Prop := p.atoms = [] ∨ q.atoms = []

theorem atoms_unbroken (piece : Piece) : piece.unbroken.atoms = piece.atoms := by
  cases piece <;> rfl

theorem apart_unbroken_iff {p q : Piece} : p.unbroken.Apart q.unbroken ↔ p.Apart q := by
  rw [Apart, atoms_unbroken, atoms_unbroken, Apart]

theorem lexemes_unbroken (piece : Piece) : piece.unbroken.lexemes = piece.lexemes := by
  cases piece <;> rfl

end Piece

namespace Expr

/-! ### On one line -/

private theorem flatMap_gap {β : Type} {f : Piece → List β} (h : f .space = []) (child : Expr) :
    (if child.isNil then [] else [Piece.space]).flatMap f = [] := by
  split
  · rfl
  · rw [List.flatMap_singleton, h]

mutual

theorem atoms_flat (e : Expr) : (flat e).flatMap Piece.atoms = e.atoms := by
  match e with
  | atom a => rfl
  | nil => rfl
  | list [] => rfl
  | list (first :: rest) => simp [flat, Piece.atoms, atoms, atomsAll, atoms_flat first, atoms_flatRest rest]

theorem atoms_flatRest (children : List Expr) : (flatRest children).flatMap Piece.atoms = atomsAll children := by
  match children with
  | [] => rfl
  | child :: rest =>
    rw [flatRest, List.flatMap_append, List.flatMap_append, flatMap_gap rfl, atoms_flat child, atoms_flatRest rest]
    rfl

end

mutual

theorem lexemes_flat (e : Expr) : (flat e).flatMap Piece.lexemes = e.lexemes := by
  match e with
  | atom a => rfl
  | nil => rfl
  | list [] => rfl
  | list (first :: rest) => simp [flat, Piece.lexemes, lexemes, lexemesAll, lexemes_flat first, lexemes_flatRest rest]

theorem lexemes_flatRest (children : List Expr) : (flatRest children).flatMap Piece.lexemes = lexemesAll children := by
  match children with
  | [] => rfl
  | child :: rest =>
    rw [flatRest, List.flatMap_append, List.flatMap_append, flatMap_gap rfl, lexemes_flat child, lexemes_flatRest rest]
    rfl

end

private theorem head?_flatRest (children : List Expr) : ∀ piece ∈ (flatRest children).head?, piece = .space := by
  induction children with
  | nil => nofun
  | cons child rest ih =>
    rw [flatRest]
    split
    · rename_i h
      rw [isNil_iff.1 h]
      exact ih
    · rintro _ ⟨⟩
      rfl

mutual

theorem isChain_apart_flat (e : Expr) : (flat e).IsChain Piece.Apart := by
  match e with
  | atom a => exact .singleton _
  | nil => exact .nil
  | list [] => exact .singleton _
  | list (first :: rest) =>
    have inside : (flat first ++ flatRest rest).IsChain Piece.Apart := by
      refine (isChain_apart_flat first).append (isChain_apart_flatRest rest) ?_
      intro _ _ piece head
      rw [head?_flatRest rest piece head]
      exact .inr rfl
    have opened : (Piece.opening :: (flat first ++ flatRest rest)).IsChain Piece.Apart :=
      List.isChain_cons.2 ⟨fun _ _ => .inl rfl, inside⟩
    rw [flat]
    refine opened.append (.singleton _) ?_
    rintro _ _ _ ⟨⟩
    exact .inr rfl

theorem isChain_apart_flatRest (children : List Expr) : (flatRest children).IsChain Piece.Apart := by
  match children with
  | [] => exact .nil
  | child :: rest =>
    have front : ((if child.isNil then [] else [Piece.space]) ++ flat child).IsChain Piece.Apart := by
      split
      · exact isChain_apart_flat child
      · exact List.isChain_cons.2 ⟨fun _ _ => .inl rfl, isChain_apart_flat child⟩
    rw [flatRest]
    refine front.append (isChain_apart_flatRest rest) ?_
    intro _ _ piece head
    rw [head?_flatRest rest piece head]
    exact .inr rfl

end

/-! ### From any cursor, for all settings -/

/-- What does not tell a line end from a space is the same in a layout as on one line. -/
private theorem flatMap_layout {β : Type} {f : Piece → List β} (h : ∀ piece : Piece, f piece.unbroken = f piece)
    (settings : Settings) (e : Expr) (cursor : Cursor) :
    (layout settings e cursor).pieces.flatMap f = (flat e).flatMap f := by
  rw [← map_unbroken_layout settings e cursor, List.flatMap_map]
  simp only [h]

theorem atoms_layout (settings : Settings) (e : Expr) (cursor : Cursor) :
    (layout settings e cursor).pieces.flatMap Piece.atoms = e.atoms := by
  rw [flatMap_layout Piece.atoms_unbroken, atoms_flat]

theorem lexemes_layout (settings : Settings) (e : Expr) (cursor : Cursor) :
    (layout settings e cursor).pieces.flatMap Piece.lexemes = e.lexemes := by
  rw [flatMap_layout Piece.lexemes_unbroken, lexemes_flat]

/-- No two atoms stand side by side in a layout. -/
theorem isChain_apart_layout (settings : Settings) (e : Expr) (cursor : Cursor) :
    (layout settings e cursor).pieces.IsChain Piece.Apart := by
  have onLine := isChain_apart_flat e
  rw [← map_unbroken_layout settings e cursor, List.isChain_map] at onLine
  exact onLine.imp fun p q => Piece.apart_unbroken_iff.1

end Expr

/-! ### Scanning what is written -/

namespace Piece

theorem text_atom (a : Atom) : (atom a).text = a.text := by
  rw [text, writes, String.join_cons, String.join_nil, String.append_empty]

theorem text_newline (indentation : Nat) : (newline indentation).text = "\n" ++ blanks indentation := by
  rw [text, writes, String.join_cons, String.join_cons, String.join_nil, String.append_empty]

/-- Whatever is not an atom is written in delimiters only. -/
private theorem mem_delimiters {piece : Piece} (h : piece.atoms = []) : ∀ c ∈ piece.text.toList, c ∈ delimiters := by
  cases piece with
  | atom a => cases h
  | _ => simp [text, writes, blanks, delimiters]

theorem text_ne_empty (piece : Piece) : piece.text ≠ "" := by
  cases piece with
  | newline indentation =>
    rw [text_newline]
    simp
  | atom a =>
    rw [text_atom]
    exact a.nonempty
  | _ => decide

/-- No byte of a piece that is not an atom is ordinary. -/
private theorem of_ne_ordinary {piece : Piece} (h : piece.atoms = []) :
    ∀ byte ∈ Utf8.encode piece.text, ByteClass.of byte ≠ .ordinary := by
  intro byte mem ordinary
  obtain ⟨c, hc, e⟩ := Utf8.exists_of_mem_encode mem
  rw [ordinary, eq_comm, ByteClass.ofChar_eq_ordinary_iff] at e
  exact e (mem_delimiters h c hc)

/-- A written piece is scanned as its lexemes. -/
private theorem lexemes_scan_text {piece : Piece} (clean : ∀ a ∈ piece.atoms, a.Clean) (position : Nat) :
    (Token.scan position (Utf8.encode piece.text)).map Token.lexeme = piece.lexemes := by
  cases piece with
  | opening =>
    rw [show Utf8.encode opening.text = [0x28] by decide]
    rfl
  | closing =>
    rw [show Utf8.encode closing.text = [0x29] by decide]
    rfl
  | empty =>
    rw [show Utf8.encode empty.text = [0x28, 0x29] by decide]
    rfl
  | space =>
    rw [show Utf8.encode space.text = [0x20] by decide]
    rfl
  | newline indentation =>
    have blank : ∀ byte ∈ Utf8.encode (newline indentation).text, ByteClass.of byte = .blank := by
      intro byte mem
      obtain ⟨c, hc, e⟩ := Utf8.exists_of_mem_encode mem
      rw [text_newline, blanks, String.toList_append] at hc
      rw [e]
      rcases List.mem_append.1 hc with hc | hc
      · rw [List.mem_singleton.1 hc]
        decide
      · rw [String.toList_ofList] at hc
        rw [List.eq_of_mem_replicate hc]
        decide
    rw [Token.scan_eq_nil_iff.2 blank]
    rfl
  | atom a =>
    have ordinary := Atom.clean_iff.1 (clean a List.mem_cons_self)
    rw [text_atom, lexemes]
    cases e : Utf8.encode a.text with
    | nil => exact absurd (Utf8.encode_eq_nil.1 e) a.nonempty
    | cons byte rest =>
      rw [e] at ordinary
      rw [Token.scan_ordinary ordinary]
      rfl

/-- Written pieces are scanned as their lexemes if their atoms are clean and no two of these touch. -/
theorem lexemes_scan_textAll {pieces : List Piece} (apart : pieces.IsChain Apart)
    (clean : ∀ a ∈ pieces.flatMap atoms, a.Clean) (position : Nat) :
    (Token.scan position (Utf8.encode (textAll pieces))).map Token.lexeme = pieces.flatMap lexemes := by
  induction pieces generalizing position with
  | nil => rfl
  | cons piece pieces ih =>
    rw [List.flatMap_cons, List.forall_mem_append] at clean
    obtain ⟨next, apart⟩ := List.isChain_cons.1 apart
    have seam : (∀ byte ∈ (Utf8.encode piece.text).getLast?, ByteClass.of byte ≠ .ordinary) ∨
        ∀ byte ∈ (Utf8.encode (textAll pieces)).head?, ByteClass.of byte ≠ .ordinary := by
      by_cases h : piece.atoms = []
      · exact .inl fun byte last => of_ne_ordinary h byte (List.mem_of_getLast? last)
      · -- the next piece, if there is one, is no atom, and it is not written as nothing
        right
        cases pieces with
        | nil => nofun
        | cons later pieces =>
          have delimiter : later.atoms = [] := (next later rfl).resolve_left h
          have written : Utf8.encode later.text ≠ [] := fun e => text_ne_empty later (Utf8.encode_eq_nil.1 e)
          rw [textAll_cons, Utf8.encode_append, List.head?_append_of_ne_nil _ written]
          exact fun byte first => of_ne_ordinary delimiter byte (List.mem_of_mem_head? first)
    rw [textAll_cons, Utf8.encode_append, Token.scan_append seam, List.map_append, List.flatMap_cons,
      lexemes_scan_text clean.1, ih apart clean.2]

end Piece

/-- The written text of an expression with clean atoms is scanned as the expression's lexemes. -/
theorem Expr.lexemes_tokens_format {e : Expr} (clean : e.Clean) (settings : Settings) :
    (tokens (Utf8.encode (e.format settings))).map Token.lexeme = e.lexemes := by
  have atoms : ∀ a ∈ (e.pieces settings).flatMap Piece.atoms, a.Clean := by
    rw [pieces, atoms_layout]
    exact clean
  have apart : (e.pieces settings).IsChain Piece.Apart := isChain_apart_layout settings e Cursor.start
  rw [format_eq_textAll, tokens, Piece.lexemes_scan_textAll apart atoms, pieces, lexemes_layout]

end SExprLayout
