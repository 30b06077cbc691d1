/-
Module: CarrySave.Text.Blank
Layer: Text
Purpose: The blank characters: those with the white-space property or a separating
  bidirectional class, the four information separators among them.  Trimming removes
  them at both ends of a text.
Main exports: blank, trim
-/
import CarrySave.Text.CharClass

namespace CarrySave.Text

/-- The blank characters, twenty-nine in all. -/
def blank : CharClass :=
  ⟨#[
    (0x9, 0xd), (0x1c, 0x20), (0x85, 0x85), (0xa0, 0xa0), (0x1680, 0x1680), (0x2000, 0x200a),
    (0x2028, 0x2029), (0x202f, 0x202f), (0x205f, 0x205f), (0x3000, 0x3000)]⟩

/-- Remove the blanks at both ends of a text. -/
def trim (text : String) : String :=
  let front := text.toList.dropWhile blank.has
  String.ofList (front.reverse.dropWhile blank.has).reverse

end CarrySave.Text
