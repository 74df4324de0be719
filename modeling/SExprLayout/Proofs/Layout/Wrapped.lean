import SExprLayout.Proofs.Layout.Content
import SExprLayout.Proofs.Layout.Nesting

/-!
# The text of a layout

On one line, the children of a list stand between its parentheses with a space between any two of them, and nil is not
written (`oneLine`).  A layout is written as this line with some of the spaces replaced by line ends (`Wrapped`).

Spaces and line ends are gaps.  A gap never stands next to another one or at either end of a layout (`spaced_layout`).
If the atoms are clean, then a line end of the text is one of the layout (`exists_newline_of_text`), so what is known of
gaps and of the indentation in a layout holds of its text (`Spaced.around_newline`, `Spaced.of_mem_lines`).
-/

namespace SExprLayout

/-! ### Texts -/

/-- The number of opening parentheses of a text minus that of the closing ones. -/
def openParentheses (text : List Char) : Int := text.count '(' - text.count ')'

/-- The second text is the first one with some of its spaces replaced by line ends, each with spaces behind it. -/
inductive Wrapped : List Char → List Char → Prop
  | nil : Wrapped [] []
  | same (c : Char) {line text : List Char} (h : Wrapped line text) : Wrapped (c :: line) (c :: text)
  | broken (indentation : Nat) {line text : List Char} (h : Wrapped line text) :
      Wrapped (' ' :: line) ('\n' :: List.replicate indentation ' ' ++ text)

theorem Wrapped.append_left {line text : List Char} (h : Wrapped line text) (front : List Char) :
    Wrapped (front ++ line) (front ++ text) := by
  induction front with
  | nil => exact h
  | cons c front ih => exact .same c ih

theorem openParentheses_append (before after : List Char) :
    openParentheses (before ++ after) = openParentheses before + openParentheses after := by
  simp only [openParentheses, List.count_append]
  omega

private theorem exists_append_of_mem_intercalate {lines : List (List Char)} {line : List Char} {c : Char}
    (h : line ∈ lines) :
    ∃ before after, List.intercalate [c] lines = before ++ line ++ after ∧
      (before = [] ∨ before.getLast? = some c) ∧ (after = [] ∨ after.head? = some c) := by
  induction lines with
  | nil => cases h
  | cons first rest ih =>
    by_cases last : rest = []
    · subst last
      rw [List.mem_singleton.1 h]
      exact ⟨[], [], by simp, .inl rfl, .inl rfl⟩
    rw [List.intercalate_cons_of_ne_nil last]
    rcases List.mem_cons.1 h with rfl | h
    · exact ⟨[], [c] ++ List.intercalate [c] rest, by simp, .inl rfl, .inr rfl⟩
    · obtain ⟨before, after, e, front, back⟩ := ih h
      refine ⟨first ++ [c] ++ before, after, by simp [e], .inr ?_, back⟩
      rcases front with rfl | front
      · simp
      · simp [List.getLast?_append, List.getLast?_cons, front]

/-- A line of a text stands between line ends, or at an end of the text. -/
theorem exists_append_of_mem_lines {text line : List Char} (h : line ∈ text.splitOn '\n') :
    ∃ before after, text = before ++ line ++ after ∧
      (before = [] ∨ before.getLast? = some '\n') ∧ (after = [] ∨ after.head? = some '\n') := by
  obtain ⟨before, after, e, ends⟩ := exists_append_of_mem_intercalate h
  rw [List.intercalate_splitOn] at e
  exact ⟨before, after, e, ends⟩

/-! ### Pieces as texts -/

namespace Piece

theorem toList_text_newline (indentation : Nat) :
    (newline indentation).text.toList = '\n' :: List.replicate indentation ' ' := by
  simp [text_newline, blanks]

theorem wrapped_textAll (pieces : List Piece) :
    Wrapped (textAll (pieces.map unbroken)).toList (textAll pieces).toList := by
  induction pieces with
  | nil => exact .nil
  | cons piece pieces ih =>
    rw [List.map_cons, textAll_cons, textAll_cons, String.toList_append, String.toList_append]
    cases piece with
    | newline indentation =>
      have blank : (newline indentation).unbroken.text.toList = [' '] := show space.text.toList = [' '] by decide
      rw [toList_text_newline, blank]
      exact .broken indentation ih
    | _ => exact ih.append_left _

/-- Space between atoms and lists. -/
def isGap : Piece → Bool
  | space => true
  | newline _ => true
  | _ => false

/-- No gap stands at either end, and no two of them side by side. -/
structure Spaced (pieces : List Piece) : Prop where
  front : ∀ piece ∈ pieces.head?, piece.isGap = false
  back : ∀ piece ∈ pieces.getLast?, piece.isGap = false
  apart : pieces.IsChain fun piece next => piece.isGap = false ∨ next.isGap = false

theorem isGap_unbroken (piece : Piece) : piece.unbroken.isGap = piece.isGap := by
  cases piece <;> rfl

theorem Spaced.of_map_unbroken {pieces : List Piece} (h : Spaced (pieces.map unbroken)) : Spaced pieces := by
  refine ⟨?_, ?_, ?_⟩
  · intro piece first
    rw [← isGap_unbroken]
    exact h.front piece.unbroken (by rw [List.head?_map]; exact Option.mem_map_of_mem _ first)
  · intro piece last
    rw [← isGap_unbroken]
    exact h.back piece.unbroken (by rw [List.getLast?_map]; exact Option.mem_map_of_mem _ last)
  · have apart := h.apart
    simp only [List.isChain_map, isGap_unbroken] at apart
    exact apart

private theorem spaced_singleton {piece : Piece} (h : piece.isGap = false) : Spaced [piece] := by
  refine ⟨?_, ?_, .singleton _⟩
  · rintro _ ⟨⟩
    exact h
  · rintro _ ⟨⟩
    exact h

theorem Spaced.append {before after : List Piece} (h : Spaced before) (h' : Spaced after) :
    Spaced (before ++ after) := by
  refine ⟨?_, ?_, h.apart.append h'.apart fun piece last _ _ => .inl (h.back piece last)⟩
  · cases before with
    | nil => exact h'.front
    | cons piece before => exact h.front
  · rcases List.eq_nil_or_concat after with rfl | ⟨after, piece, rfl⟩
    · rw [List.append_nil]
      exact h.back
    · have back := h'.back
      rw [List.concat_eq_append] at back ⊢
      rwa [← List.append_assoc, List.getLast?_concat, ← List.getLast?_concat]

theorem Spaced.append_space {before after : List Piece} (h : Spaced before) (h' : Spaced after)
    (some : before ≠ []) (some' : after ≠ []) : Spaced (before ++ space :: after) := by
  have apart : (space :: after).IsChain fun piece next => piece.isGap = false ∨ next.isGap = false :=
    List.isChain_cons.2 ⟨fun next first => .inr (h'.front next first), h'.apart⟩
  refine ⟨?_, ?_, h.apart.append apart fun piece last _ _ => .inl (h.back piece last)⟩
  · rw [List.head?_append_of_ne_nil _ some]
    exact h.front
  · rw [List.getLast?_append_of_ne_nil _ (List.cons_ne_nil _ _), List.getLast?_cons_of_ne_nil some']
    exact h'.back

end Piece

namespace Expr

open Piece

theorem flat_ne_nil {e : Expr} (h : e.isNil = false) : flat e ≠ [] := by
  match e with
  | atom a => exact List.cons_ne_nil _ _
  | list [] => exact List.cons_ne_nil _ _
  | list (first :: rest) => exact List.cons_ne_nil _ _

mutual

theorem spaced_flat (e : Expr) : Spaced (flat e) := by
  match e with
  | atom a => exact spaced_singleton rfl
  | nil => exact ⟨nofun, nofun, .nil⟩
  | list [] => exact spaced_singleton rfl
  | list (first :: rest) =>
    have opened : Spaced (.opening :: flat first) := (spaced_singleton rfl).append (spaced_flat first)
    exact (spaced_flatRest rest opened (List.cons_ne_nil _ _)).append (spaced_singleton rfl)

theorem spaced_flatRest (children : List Expr) {before : List Piece} (h : Spaced before) (some : before ≠ []) :
    Spaced (before ++ flatRest children) := by
  match children with
  | [] =>
    rw [flatRest, List.append_nil]
    exact h
  | child :: rest =>
    rw [flatRest, ← List.append_assoc]
    split
    · rename_i isNil
      rw [isNil_iff.1 isNil, flat, List.append_nil, List.append_nil]
      exact spaced_flatRest rest h some
    · rename_i notNil
      have next := h.append_space (spaced_flat child) some (flat_ne_nil (Bool.eq_false_iff.2 notNil))
      exact spaced_flatRest rest next (by simp [some])

end

/-- In a layout, gaps stand apart from each other and from both ends. -/
theorem spaced_layout (settings : Settings) (e : Expr) (cursor : Cursor) :
    Spaced (layout settings e cursor).pieces := by
  apply Spaced.of_map_unbroken
  rw [map_unbroken_layout]
  exact spaced_flat e

/-! ### One line -/

mutual

/-- The text of an expression on one line. -/
def oneLine : Expr → String
  | atom a => a.text
  | nil => ""
  | list children => "(" ++ String.intercalate " " (oneLineAll children) ++ ")"

/-- The texts of the expressions in a row that are not nil. -/
def oneLineAll : List Expr → List String
  | [] => []
  | child :: rest => if child.isNil then oneLineAll rest else child.oneLine :: oneLineAll rest

end

private theorem append_textAll_flatRest {children : List Expr}
    (row : Row (fun child => child.Closed ∧ textAll (flat child) = child.oneLine) children) (front : String) :
    front ++ textAll (flatRest children) = String.intercalate " " (front :: oneLineAll children) := by
  induction row generalizing front with
  | nil => simp [flatRest, oneLineAll, textAll]
  | closing => simp [flatRest, oneLineAll, textAll, isNil, flat]
  | @cons child rest first _ ih =>
    obtain ⟨closed, written⟩ := first
    have blank : textAll [space] = " " := by decide
    rw [flatRest, oneLineAll, closed.isNil_eq, if_neg Bool.false_ne_true, if_neg Bool.false_ne_true,
      String.intercalate_cons_cons, ← ih, textAll_append, textAll_append, blank, written]
    simp only [String.append_assoc]

/-- A list of closed expressions is written on one line with a space between any two of them. -/
theorem textAll_flat_list {children : List Expr}
    (row : Row (fun child => child.Closed ∧ textAll (flat child) = child.oneLine) children) :
    textAll (flat (list children)) = (list children).oneLine := by
  cases row with
  | nil => decide
  | closing => decide
  | @cons first rest one later =>
    obtain ⟨closed, written⟩ := one
    have front : textAll [opening] = "(" := by decide
    have back : textAll [closing] = ")" := by decide
    rw [flat, oneLine, oneLineAll, closed.isNil_eq, if_neg Bool.false_ne_true, ← append_textAll_flatRest later,
      textAll_append, ← List.singleton_append, textAll_append, textAll_append, front, back, written]
    simp only [String.append_assoc]

theorem textAll_flat_atom (a : Atom) : textAll (flat (atom a)) = oneLine (atom a) := by
  rw [flat, oneLine, textAll_cons, text_atom]
  exact String.append_empty

end Expr

/-! ### Gaps in the text -/

namespace Piece

variable {pieces : List Piece}

private theorem not_blank_of_mem_text {piece : Piece} (gap : piece.isGap = false) (clean : ∀ a ∈ piece.atoms, a.Clean) :
    ∀ c ∈ piece.text.toList, c ≠ ' ' ∧ c ≠ '\n' := by
  cases piece with
  | space => cases gap
  | newline indentation => cases gap
  | atom a =>
    rw [text_atom]
    intro c mem
    have := clean a List.mem_cons_self c mem
    simp only [delimiters, List.mem_cons, not_or] at this
    exact ⟨this.1, this.2.2.1⟩
  | opening =>
    rw [show opening.text.toList = ['('] by decide, List.forall_mem_singleton]
    decide
  | closing =>
    rw [show closing.text.toList = [')'] by decide, List.forall_mem_singleton]
    decide
  | empty =>
    rw [show empty.text.toList = ['(', ')'] by decide, List.forall_mem_cons, List.forall_mem_singleton]
    decide

/-- The parentheses of the text are those of the pieces. -/
theorem openParentheses_textAll (clean : ∀ a ∈ pieces.flatMap atoms, a.Clean) :
    openParentheses (textAll pieces).toList = (pieces.map nesting).sum := by
  induction pieces with
  | nil => rfl
  | cons piece pieces ih =>
    rw [List.flatMap_cons, List.forall_mem_append] at clean
    have first : openParentheses piece.text.toList = piece.nesting := by
      cases piece with
      | newline indentation =>
        rw [toList_text_newline]
        simp [openParentheses, nesting, List.count_replicate]
      | atom a =>
        have none : ∀ c ∈ a.text.toList, c ∉ delimiters := clean.1 a List.mem_cons_self
        have opening : '(' ∉ a.text.toList := fun mem => none _ mem (by decide)
        have closing : ')' ∉ a.text.toList := fun mem => none _ mem (by decide)
        rw [text_atom, openParentheses, List.count_eq_zero.2 opening, List.count_eq_zero.2 closing]
        rfl
      | _ => decide
    rw [textAll_cons, String.toList_append, openParentheses_append, first, ih clean.2, List.map_cons,
      List.sum_cons]

private theorem newline_of_text {piece : Piece} (clean : ∀ a ∈ piece.atoms, a.Clean) {before after : List Char}
    (h : piece.text.toList = before ++ '\n' :: after) :
    ∃ indentation, piece = newline indentation ∧ before = [] ∧ after = List.replicate indentation ' ' := by
  have mem : '\n' ∈ piece.text.toList := by simp [h]
  by_cases gap : piece.isGap = false
  · exact absurd rfl (not_blank_of_mem_text gap clean '\n' mem).2
  cases piece with
  | space => exact absurd mem (by decide)
  | newline indentation =>
    rw [toList_text_newline] at h
    cases before with
    | nil => exact ⟨indentation, rfl, rfl, (List.cons.inj h).2.symm⟩
    | cons c before =>
      have among : '\n' ∈ List.replicate indentation ' ' := by
        rw [(List.cons.inj h).2]
        simp
      exact absurd (List.eq_of_mem_replicate among) (by decide)
  | _ => exact absurd rfl gap

/-- A line end in the text is one of the pieces. -/
theorem exists_newline_of_text (clean : ∀ a ∈ pieces.flatMap atoms, a.Clean) {before after : List Char}
    (h : (textAll pieces).toList = before ++ '\n' :: after) :
    ∃ front indentation back, pieces = front ++ newline indentation :: back ∧ before = (textAll front).toList ∧
      after = List.replicate indentation ' ' ++ (textAll back).toList := by
  induction pieces generalizing before with
  | nil => simp [textAll] at h
  | cons piece pieces ih =>
    rw [List.flatMap_cons, List.forall_mem_append] at clean
    rw [textAll_cons, String.toList_append] at h
    -- the line end is somewhere behind the text of the first piece, right behind it, or inside it
    rcases List.append_eq_append_iff.1 h with ⟨later, rfl, rest⟩ | ⟨inside, split, rest⟩
    · obtain ⟨front, indentation, back, rfl, rfl, rfl⟩ := ih clean.2 rest
      exact ⟨piece :: front, indentation, back, rfl, by rw [textAll_cons, String.toList_append], rfl⟩
    · cases inside with
      | nil =>
        obtain ⟨front, indentation, back, rfl, none, rfl⟩ := ih clean.2 (show _ = [] ++ '\n' :: after from rest.symm)
        refine ⟨piece :: front, indentation, back, rfl, ?_, rfl⟩
        rw [textAll_cons, String.toList_append, ← none, split]
        simp
      | cons c inside =>
        obtain ⟨rfl, rfl⟩ := List.cons.inj rest
        obtain ⟨indentation, rfl, rfl, rfl⟩ := newline_of_text clean.1 split
        exact ⟨[], indentation, pieces, rfl, rfl, rfl⟩

private theorem exists_last_of_text (clean : ∀ a ∈ pieces.flatMap atoms, a.Clean) (nonempty : pieces ≠ [])
    (back : ∀ piece ∈ pieces.getLast?, piece.isGap = false) :
    ∃ c, (textAll pieces).toList.getLast? = some c ∧ c ≠ ' ' ∧ c ≠ '\n' := by
  obtain ⟨front, piece, rfl⟩ := (List.eq_nil_or_concat pieces).resolve_left nonempty
  rw [List.concat_eq_append] at *
  rw [List.flatMap_append, List.forall_mem_append, List.flatMap_singleton] at clean
  have gap : piece.isGap = false := back piece List.getLast?_concat
  have written : piece.text.toList ≠ [] := fun e => text_ne_empty piece (String.toList_eq_nil_iff.1 e)
  have last := List.getLast?_eq_some_getLast written
  have text : (textAll (front ++ [piece])).toList = (textAll front).toList ++ piece.text.toList := by
    rw [textAll_append, String.toList_append, textAll_cons, show textAll [] = "" from rfl, String.append_empty]
  refine ⟨piece.text.toList.getLast written, ?_, not_blank_of_mem_text gap clean.2 _ (List.getLast_mem written)⟩
  rw [text, List.getLast?_append_of_ne_nil _ written, last]

private theorem exists_first_of_text (clean : ∀ a ∈ pieces.flatMap atoms, a.Clean) (nonempty : pieces ≠ [])
    (front : ∀ piece ∈ pieces.head?, piece.isGap = false) :
    ∃ c rest, (textAll pieces).toList = c :: rest ∧ c ≠ ' ' := by
  obtain ⟨piece, back, rfl⟩ := List.exists_cons_of_ne_nil nonempty
  rw [List.flatMap_cons, List.forall_mem_append] at clean
  have gap : piece.isGap = false := front piece rfl
  have written : piece.text.toList ≠ [] := fun e => text_ne_empty piece (String.toList_eq_nil_iff.1 e)
  obtain ⟨c, rest, text⟩ := List.exists_cons_of_ne_nil written
  refine ⟨c, rest ++ (textAll back).toList, ?_, (not_blank_of_mem_text gap clean.1 c (by simp [text])).1⟩
  rw [textAll_cons, String.toList_append, text, List.cons_append]

/-- Before a line end of the text and behind its indentation stand characters that are not blank. -/
theorem Spaced.around_newline (spaced : Spaced pieces) (clean : ∀ a ∈ pieces.flatMap atoms, a.Clean)
    {indentSize : Int} (indented : Indented indentSize 0 pieces) {before after : List Char}
    (h : (textAll pieces).toList = before ++ '\n' :: after) :
    (∃ c, before.getLast? = some c ∧ c ≠ ' ' ∧ c ≠ '\n') ∧
      ∃ (indentation : Nat) (c : Char) (rest : List Char), after = List.replicate indentation ' ' ++ c :: rest ∧
        c ≠ ' ' ∧ indentation = openParentheses before * indentSize := by
  obtain ⟨front, indentation, back, rfl, rfl, rfl⟩ := exists_newline_of_text clean h
  rw [List.flatMap_append, List.flatMap_cons, List.forall_mem_append, List.forall_mem_append] at clean
  have columns := indented.eq_of_newline
  obtain ⟨-, apart, seam⟩ := List.isChain_append.1 spaced.apart
  have someFront : front ≠ [] := by
    rintro rfl
    cases spaced.front (newline indentation) rfl
  have someBack : back ≠ [] := by
    rintro rfl
    cases spaced.back (newline indentation) List.getLast?_concat
  have gapless (piece : Piece) (last : piece ∈ front.getLast?) : piece.isGap = false :=
    (seam piece last (newline indentation) rfl).resolve_right nofun
  have gapless' (piece : Piece) (first : piece ∈ back.head?) : piece.isGap = false :=
    ((List.isChain_cons.1 apart).1 piece first).resolve_left nofun
  obtain ⟨c, rest, text, notBlank⟩ := exists_first_of_text clean.2.2 someBack gapless'
  refine ⟨exists_last_of_text clean.1 someFront gapless, indentation, c, rest, by rw [text], notBlank, ?_⟩
  rw [openParentheses_textAll clean.1, columns, Int.zero_add]

/-- No line of the text is empty, and none ends in a space. -/
theorem Spaced.of_mem_lines (spaced : Spaced pieces) (clean : ∀ a ∈ pieces.flatMap atoms, a.Clean)
    (nonempty : pieces ≠ []) {indentSize : Int} (indented : Indented indentSize 0 pieces) {line : List Char}
    (h : line ∈ (textAll pieces).toList.splitOn '\n') : line ≠ [] ∧ line.getLast? ≠ some ' ' := by
  obtain ⟨before, after, text, front, back⟩ := exists_append_of_mem_lines h
  -- the line and what is before it end where the text ends or before a line end, so in a character of its own
  have ending : ∃ c, (before ++ line).getLast? = some c ∧ c ≠ ' ' ∧ c ≠ '\n' := by
    cases after with
    | nil =>
      rw [List.append_nil] at text
      rw [← text]
      exact exists_last_of_text clean nonempty spaced.back
    | cons c after =>
      obtain rfl : c = '\n' := Option.some.inj (back.resolve_left (List.cons_ne_nil _ _))
      exact (spaced.around_newline clean indented text).1
  obtain ⟨c, last, notSpace, notNewline⟩ := ending
  have someLine : line ≠ [] := by
    rintro rfl
    rw [List.append_nil] at last
    rcases front with rfl | front
    · cases last
    · exact notNewline (Option.some.inj (last.symm.trans front))
  rw [List.getLast?_append_of_ne_nil _ someLine] at last
  rw [last]
  exact ⟨someLine, fun e => notSpace (Option.some.inj e)⟩

end Piece

end SExprLayout
