/-
Module: CarrySave.Decimal.Binary64
Layer: Numbers
Purpose: Double-precision numbers as data.  A number is kept as its sixty-four bits and
  read as a sign, a coefficient and a power of two, so that everything else about it is
  exact arithmetic on natural numbers.
Main exports: Binary64, Binary64.Reading, Binary64.read, Binary64.ofParts,
  Binary64.integer?, Binary64.isNegative
-/
namespace CarrySave

/-- A double-precision number, given by the bits of its interchange format. -/
structure Binary64 where
  bits : UInt64
deriving DecidableEq, Repr, Inhabited

namespace Binary64

/-- What the bits stand for.  A finite number is `coefficient * 2 ^ exponent`, negated when
`negative` holds; zero keeps its sign. -/
inductive Reading where
  | finite (negative : Bool) (coefficient : Nat) (exponent : Int)
  | infinite (negative : Bool)
  | notANumber
deriving DecidableEq, Repr

/-- The number of stored bits of the coefficient. -/
def fractionBits : Nat := 52

/-- The bit above the stored bits of the coefficient. -/
def leadingBit : Nat := 0x10000000000000

/-- The bit that holds the sign. -/
def signBit : Nat := 0x8000000000000000

/-- The exponent of the least positive number. -/
def leastExponent : Int := -1074

/-- The exponent field of the infinities. -/
def topField : Nat := 2047

/-- Read the bits. -/
def read (x : Binary64) : Reading :=
  let word := x.bits.toNat
  let negative := signBit ≤ word
  let field := word / leadingBit % (topField + 1)
  let fraction := word % leadingBit
  if field = topField then
    if fraction = 0 then .infinite negative else .notANumber
  else if field = 0 then
    .finite negative fraction leastExponent
  else
    .finite negative (leadingBit + fraction) (leastExponent + (field - 1 : Nat))

/-- The number `coefficient * 2 ^ (leastExponent + steps)` with the given sign, or `none`
when it is beyond the finite range.  The coefficient has at most fifty-three bits, or is
the power of two just above them; it has exactly fifty-three unless `steps` is zero.  The
leading bit is not stored but adds one to the exponent field, which is why the field and
the coefficient can simply be added. -/
def ofParts (negative : Bool) (coefficient steps : Nat) : Option Binary64 :=
  let word := steps * leadingBit + coefficient
  if word < topField * leadingBit then
    some ⟨UInt64.ofNat ((if negative then signBit else 0) + word)⟩
  else
    none

/-- The number one. -/
def one : Binary64 := ⟨0x3ff0000000000000⟩

/-- The integer that a number equals, if it equals one. -/
def integer? (x : Binary64) : Option Int :=
  match x.read with
  | .finite negative coefficient exponent =>
      let scaled := coefficient * Nat.pow 2 exponent.toNat
      let unit := Nat.pow 2 (-exponent).toNat
      if scaled % unit = 0 then
        some (if negative then -(scaled / unit : Nat) else (scaled / unit : Nat))
      else
        none
  | _ => none

/-- Whether a number is below zero. -/
def isNegative (x : Binary64) : Bool :=
  match x.read with
  | .finite negative coefficient _ => negative && coefficient != 0
  | .infinite negative => negative
  | .notANumber => false

end Binary64

end CarrySave
