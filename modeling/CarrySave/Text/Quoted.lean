/-
Module: CarrySave.Text.Quoted
Layer: Text
Purpose: A text between quotes, written so that it can be read back: the quote in use,
  the backslash and every unprintable character are escaped.
Main exports: singleQuote, doubleQuote, chooseQuote, escapeChar, quoted
-/
import CarrySave.Text.Printable

namespace CarrySave.Text

/-- The single quote, which surrounds a text unless it would have to be escaped and the
double quote would not. -/
def singleQuote : Char := '\x27'

/-- The quote that replaces it then. -/
def doubleQuote : Char := '"'

/-- The quote that surrounds a text: double when the text holds a single quote and no
double one, single otherwise. -/
def chooseQuote (chars : List Char) : Char :=
  if chars.contains singleQuote && !chars.contains doubleQuote then doubleQuote
  else singleQuote

/-- A number in base sixteen, filled with zeros to `places` digits. -/
def hexadecimal (places n : Nat) : List Char :=
  let digits := Nat.toDigits 16 n
  List.replicate (places - digits.length) '0' ++ digits

/-- The spelling of one character between quotes of the given kind.  An unprintable
character without a short escape is written by its code in two, four or eight digits,
whichever is the shortest that holds it. -/
def escapeChar (quote c : Char) : List Char :=
  if c = quote || c = '\\' then ['\\', c]
  else if c = '\n' then ['\\', 'n']
  else if c = '\r' then ['\\', 'r']
  else if c = '\t' then ['\\', 't']
  else if isPrintable c then [c]
  else if c.toNat < 0x100 then '\\' :: 'x' :: hexadecimal 2 c.toNat
  else if c.toNat < 0x10000 then '\\' :: 'u' :: hexadecimal 4 c.toNat
  else '\\' :: 'U' :: hexadecimal 8 c.toNat

example : escapeChar singleQuote '\x07' = ['\\', 'x', '0', '7'] := by decide +kernel

/-- A text between quotes. -/
def quoted (text : String) : String :=
  let chars := text.toList
  let quote := chooseQuote chars
  String.ofList (quote :: chars.flatMap (escapeChar quote) ++ [quote])

end CarrySave.Text
