/-
Module: CarrySave.Decimal.Shortest
Layer: Numbers
Purpose: A double-precision number in the fewest decimal digits that read back as it.
  The digits are found by exact arithmetic on the interval of reals that round to the
  number; how they are set out is one record, `Layout.plain`.
Main exports: Significand, shortestDigits, Layout, Layout.plain, Binary64.text
-/
import CarrySave.Decimal.Binary64

namespace CarrySave.Decimal

/-! ### Digits -/

/-- A decimal number `digits * 10 ^ exponent`. -/
structure Significand where
  digits : Nat
  exponent : Int
deriving DecidableEq, Repr

/-- How many decimal digits a natural number has; none for zero. -/
def digitCount (n : Nat) : Nat :=
  if n = 0 then 0 else (Nat.toDigits 10 n).length

/-- The largest `p` with `10 ^ p ≤ numerator / denominator`, for positive arguments. -/
def decimalExponent (numerator denominator : Nat) : Int :=
  if denominator ≤ numerator then (digitCount (numerator / denominator) : Int) - 1
  else -(digitCount ((denominator - 1) / numerator) : Int)

/-- The reals that round to one double, over a common denominator: those between `low` and
`high`, the ends belonging to them when `closed` holds. -/
structure RoundingInterval where
  low : Nat
  value : Nat
  high : Nat
  denominator : Nat
  closed : Bool

/-- The rounding interval of `coefficient * 2 ^ exponent`.  It reaches half a unit to each
side, but only a quarter downward from a power of two, where the units below are half as
large.  The ends round to the number when its coefficient is even. -/
def RoundingInterval.around (coefficient : Nat) (exponent : Int) : RoundingInterval :=
  let below :=
    if coefficient = Binary64.leadingBit ∧ Binary64.leastExponent < exponent then 1 else 2
  let scale := Nat.pow 2 (exponent - 2).toNat
  { low := (4 * coefficient - below) * scale
    value := 4 * coefficient * scale
    high := (4 * coefficient + 2) * scale
    denominator := Nat.pow 2 (2 - exponent).toNat
    closed := coefficient % 2 == 0 }

/-- Whether the decimal number `digits * 10 ^ exponent` rounds to the double. -/
def RoundingInterval.holds (interval : RoundingInterval) (number : Significand) : Bool :=
  let point := number.digits * Nat.pow 10 number.exponent.toNat * interval.denominator
  let unit := Nat.pow 10 (-number.exponent).toNat
  if interval.closed then interval.low * unit ≤ point && point ≤ interval.high * unit
  else interval.low * unit < point && point < interval.high * unit

/-- The decimal number of `count` digits that reads back as the double and is nearest to
it, if any does.  Only the two neighbours of the value on that grid can be it. -/
def RoundingInterval.nearest? (interval : RoundingInterval) (count : Nat) : Option Significand :=
  let exponent := decimalExponent interval.value interval.denominator - count + 1
  let scaled := interval.value * Nat.pow 10 (-exponent).toNat
  let unit := interval.denominator * Nat.pow 10 exponent.toNat
  let below : Significand := ⟨scaled / unit, exponent⟩
  let above : Significand := ⟨scaled / unit + 1, exponent⟩
  let twice := 2 * (scaled % unit)
  let lowerIsNearer := twice < unit || (twice == unit && below.digits % 2 == 0)
  match interval.holds below, interval.holds above with
  | true, true => some (if lowerIsNearer then below else above)
  | true, false => some below
  | false, true => some above
  | false, false => none

/-- Seventeen digits always read back. -/
def enoughDigits : Nat := 17

/-- The fewest digits that read back as a positive double, and of those the nearest. -/
def shortestDigits (coefficient : Nat) (exponent : Int) : Significand :=
  let interval := RoundingInterval.around coefficient exponent
  ((List.range' 1 enoughDigits).findSome? interval.nearest?).getD ⟨0, 0⟩

/-! ### Layout -/

/-- How the digits of a number are set out. -/
structure Layout where
  /-- The least decimal exponent written in positional notation. -/
  leastPositional : Int
  /-- The least exponent above those written in positional notation. -/
  beyondPositional : Int
  /-- The least number of digits of a written exponent. -/
  exponentDigits : Nat

/-- Numbers are written positionally from a ten-thousandth up to ten to the sixteenth,
always with a point, and otherwise with a signed exponent of two digits or more. -/
def Layout.plain : Layout := ⟨-4, 16, 2⟩

/-- Zeros, as many as asked for. -/
def noughts (count : Nat) : List Char :=
  List.replicate count '0'

/-- Set out decimal digits of which `whole` stand before the point. -/
def Layout.positional (digits : List Char) (whole : Int) : List Char :=
  let before := digits.take whole.toNat
  let after := digits.drop whole.toNat
  let integer := if whole ≤ 0 then ['0'] else before ++ noughts (whole.toNat - digits.length)
  let fraction := noughts (-whole).toNat ++ after
  integer ++ '.' :: (if after.isEmpty then ['0'] else fraction)

/-- Set out decimal digits of which the first has the weight `10 ^ exponent`. -/
def Layout.scientific (layout : Layout) (digits : List Char) (exponent : Int) : List Char :=
  let mantissa := match digits with
    | first :: second :: rest => first :: '.' :: second :: rest
    | short => short
  let magnitude := Nat.toDigits 10 exponent.natAbs
  mantissa ++ 'e' :: (if exponent < 0 then '-' else '+') ::
    (noughts (layout.exponentDigits - magnitude.length) ++ magnitude)

/-- Set out a decimal number.  Zeros at the end of the digits carry no information. -/
def Layout.write (layout : Layout) (number : Significand) : List Char :=
  let all := Nat.toDigits 10 number.digits
  let digits := (all.reverse.dropWhile (· == '0')).reverse
  let exponent := number.exponent + all.length - 1
  if layout.leastPositional ≤ exponent ∧ exponent < layout.beyondPositional then
    Layout.positional digits (exponent + 1)
  else
    layout.scientific digits exponent

example : Layout.plain.write ⟨15, -1⟩ = ['1', '.', '5'] := by decide

example : Layout.plain.write ⟨1, 22⟩ = ['1', 'e', '+', '2', '2'] := by decide

example : Layout.plain.write ⟨1, -5⟩ = ['1', 'e', '-', '0', '5'] := by decide

/-- The least positive number lies between 4 and 5 units of its last decimal place, and
both read back as it; 5 is nearer. -/
example : shortestDigits 1 (-1074) = ⟨5, -324⟩ := by decide +kernel

end CarrySave.Decimal

namespace CarrySave.Binary64

open Decimal

/-- The text of a double. -/
def text (x : Binary64) : String :=
  let sign (negative : Bool) := if negative then "-" else ""
  match x.read with
  | .finite negative coefficient exponent =>
      sign negative ++
        (if coefficient = 0 then "0.0"
        else String.ofList (Layout.plain.write (shortestDigits coefficient exponent)))
  | .infinite negative => sign negative ++ "inf"
  | .notANumber => "nan"

end CarrySave.Binary64
