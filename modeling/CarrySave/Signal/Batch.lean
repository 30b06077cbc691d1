/-
Module: CarrySave.Signal.Batch
Layer: Signals
Purpose: Values for one case or for many cases at once.  A single value stands for itself
  in every case, and so does a batch of one entry; other batches combine entry by entry
  and must have the same size.
Main exports: Batch, Batch.map, Batch.zipWith, Batch.spread, Batch.checked
-/
import CarrySave.Error
import CarrySave.Word

namespace CarrySave

/-- A single value, or a batch of values, one for each case. -/
inductive Batch (α : Type) where
  | one (value : α)
  | many (values : Array α)
deriving DecidableEq, Repr, Inhabited

namespace Batch

variable {α β γ : Type}

/-- Whether there is just one value for all cases. -/
def isSingle : Batch α → Bool
  | .one _ => true
  | .many _ => false

/-- Apply a function in every case. -/
def map (f : α → β) : Batch α → Batch β
  | .one value => .one (f value)
  | .many values => .many (values.map f)

/-- Combine two values in every case.  A batch of one entry is stretched to the size of the
other batch. -/
def zipWith (f : α → β → γ) : Batch α → Batch β → Except Error (Batch γ)
  | .one x, .one y => .ok (.one (f x y))
  | .one x, .many ys => .ok (.many (ys.map (f x)))
  | .many xs, .one y => .ok (.many (xs.map (f · y)))
  | .many xs, .many ys =>
      if xs.size = ys.size then
        .ok (.many (Array.zipWith f xs ys))
      else
        match xs.toList, ys.toList with
        | [x], _ => .ok (.many (ys.map (f x)))
        | _, [y] => .ok (.many (xs.map (f · y)))
        | _, _ => .error (.unequalBatches xs.size ys.size)

/-- The values of `count` cases.  A single value is the same in all of them. -/
def spread (count : Nat) : Batch α → Array α
  | .one value => Array.replicate count value
  | .many values => values

/-- Numbers as a caller may give them.  The numbers of a batch are words, whereas a single
number may be of any size. -/
def checked : Batch Int → Except Error (Batch Int)
  | .one value => .ok (.one value)
  | .many values =>
      match values.find? (!isWord ·) with
      | some value => .error (.notAWord value)
      | none => .ok (.many values)

end Batch

end CarrySave
