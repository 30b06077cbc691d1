/-
Module: CarrySave.Decimal.Fixed
Layer: Numbers
Purpose: A double-precision number with a fixed number of decimal places.
Main exports: Binary64.toPlaces
-/
import CarrySave.Decimal.Binary64
import CarrySave.Decimal.Rounding

namespace CarrySave.Binary64

open Decimal

/-- The exact value of a double rounded to `places` decimal places, a half going to the
even neighbour.  The sign stays also when all digits round to zero. -/
def toPlaces (places : Nat) (x : Binary64) : String :=
  let sign (negative : Bool) := if negative then "-" else ""
  match x.read with
  | .finite negative coefficient exponent =>
      let units := roundQuotient (coefficient * Nat.pow 2 exponent.toNat * Nat.pow 10 places)
        (Nat.pow 2 (-exponent).toNat)
      let digits := Nat.toDigits 10 units
      let filled := List.replicate (places + 1 - digits.length) '0' ++ digits
      let whole := filled.length - places
      sign negative ++ String.ofList (filled.take whole ++ '.' :: filled.drop whole)
  | .infinite negative => sign negative ++ "inf"
  | .notANumber => "nan"

end CarrySave.Binary64
