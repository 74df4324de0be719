import SExprLayout.Layout.Basic

/-!
# Printing to an output

An expression is printed piece by piece to an output that may hold text already.  On the way the printer moves a cursor
and knows nothing else; the cursor begins anew for each expression, and what the output holds is never looked at.  So
printing adds the pieces of the layout to the output (`print_eq`), which is the same text for every output
(`printTo_eq`).
-/

namespace SExprLayout

/-- An expression on the way to the output: the cursor, and what the output holds so far. -/
structure Printing where
  cursor : Cursor
  output : String

namespace Printing

/-- Moves the cursor. -/
def move (f : Cursor → Cursor) (printing : Printing) : Printing := { printing with cursor := f printing.cursor }

/-- Writes a text to the output. -/
def write (text : String) (printing : Printing) : Printing := { printing with output := printing.output ++ text }

/-- Writes pieces to the output, each with as many writes as it takes. -/
def writeAll (pieces : List Piece) (printing : Printing) : Printing :=
  (pieces.flatMap Piece.writes).foldl (fun printing text => printing.write text) printing

private theorem foldl_write (texts : List String) (printing : Printing) :
    texts.foldl (fun printing text => printing.write text) printing = printing.write (String.join texts) := by
  induction texts generalizing printing with
  | nil => simp [write]
  | cons text texts ih => rw [List.foldl_cons, ih, write, write, write, String.join_cons, String.append_assoc]

theorem writeAll_eq (pieces : List Piece) (printing : Printing) :
    printing.writeAll pieces = printing.write (Piece.textAll pieces) := by
  rw [writeAll, foldl_write, Piece.textAll_eq_join_writes]

end Printing

namespace Expr

mutual

/-- Prints an expression. -/
def print (settings : Settings) : Expr → Printing → Printing
  | atom a, printing => (printing.move fun cursor => cursor.advance a.length).writeAll [.atom a]
  | nil, printing => printing.move Cursor.shallower
  | list [], printing => printing.writeAll [.empty]
  | list (first :: rest), printing =>
    let projected := printing.cursor.deeper.projected settings (sizeAll (first :: rest))
    let opened := (printing.move fun cursor => cursor.deeper.settle settings projected).writeAll [.opening]
    (printRest settings projected rest (print settings first opened)).writeAll [.closing]

/-- Prints the later children of a list, each after its separator. -/
def printRest (settings : Settings) (projected : Int) : List Expr → Printing → Printing
  | [], printing => printing
  | child :: rest, printing =>
    let separated := printing.writeAll (separator settings projected printing.cursor child)
    printRest settings projected rest (print settings child separated)

end

/-- What an output holds after an expression was printed to it. -/
def printTo (settings : Settings) (output : String) (e : Expr) : String :=
  (print settings e ⟨Cursor.start, output⟩).output

mutual

/-- Printing goes where the layout goes, and adds its pieces to the output. -/
theorem print_eq (settings : Settings) (e : Expr) (printing : Printing) :
    print settings e printing =
      ⟨(layout settings e printing.cursor).cursor,
        printing.output ++ Piece.textAll (layout settings e printing.cursor).pieces⟩ := by
  match e with
  | atom a =>
    rw [print, Printing.writeAll_eq]
    rfl
  | nil =>
    rw [print, layout, Piece.textAll_nil, String.append_empty]
    rfl
  | list [] =>
    rw [print, Printing.writeAll_eq]
    rfl
  | list (first :: rest) =>
    simp only [print, layout, print_eq settings first, printRest_eq settings _ rest, Printing.writeAll_eq,
      Printing.write, Printing.move, Piece.textAll_append, Piece.textAll_cons, Piece.textAll_nil, String.append_empty,
      String.append_assoc]

theorem printRest_eq (settings : Settings) (projected : Int) (children : List Expr) (printing : Printing) :
    printRest settings projected children printing =
      ⟨(layoutRest settings projected children printing.cursor).cursor,
        printing.output ++ Piece.textAll (layoutRest settings projected children printing.cursor).pieces⟩ := by
  match children with
  | [] => rw [printRest, layoutRest, Piece.textAll_nil, String.append_empty]
  | child :: rest =>
    simp only [printRest, layoutRest, print_eq settings child, printRest_eq settings projected rest,
      Printing.writeAll_eq, Printing.write, Piece.textAll_append, String.append_assoc]

end

/-- Printing adds the text of the expression to the output, whatever the output holds. -/
theorem printTo_eq (settings : Settings) (output : String) (e : Expr) :
    printTo settings output e = output ++ format settings e := by
  rw [printTo, print_eq, format_eq_textAll, pieces]

end Expr

end SExprLayout
