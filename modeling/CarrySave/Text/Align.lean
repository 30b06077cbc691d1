/-
Module: CarrySave.Text.Align
Layer: Text
Purpose: Text set in a column of given width, and the ruled lines between columns.
Main exports: ruled, alignLeft, alignRight
-/
namespace CarrySave.Text

/-- One character repeated. -/
def ruled (c : Char) (width : Nat) : String :=
  String.ofList (List.replicate width c)

/-- A text followed by as many spaces as fill the column.  A longer text is kept whole. -/
def alignLeft (width : Nat) (text : String) : String :=
  text ++ ruled ' ' (width - text.length)

/-- A text preceded by as many spaces as fill the column.  A longer text is kept whole. -/
def alignRight (width : Nat) (text : String) : String :=
  ruled ' ' (width - text.length) ++ text

end CarrySave.Text
