/-
Module: CarrySave.Proofs.Signal.Batch
Layer: Proofs
Purpose: Batches by their sizes and by their cases.  Two sizes are compatible when they are equal
  or one of them is one.  Combining two values succeeds exactly when their sizes are compatible,
  and then it combines them case by case, a batch of one entry being the same in all cases.
Main exports: Compatible, Batch.inCase, Batch.Spans, Batch.zipWith_of_spans
-/
import CarrySave.Signal.Batch
import Mathlib.Data.Option.NAry

namespace CarrySave

/-- Two sizes are compatible when they are equal or one of them is one. -/
def Compatible (m n : Nat) : Prop :=
  m = n ∨ m = 1 ∨ n = 1

instance (m n : Nat) : Decidable (Compatible m n) :=
  inferInstanceAs (Decidable (m = n ∨ m = 1 ∨ n = 1))

namespace Batch

variable {α β γ : Type}

/-! ### Cases -/

/-- The value of one case.  A single value and the only entry of a batch stand for all cases; any
other batch has as many cases as entries. -/
def inCase (index : Nat) : Batch α → Option α
  | .one value => some value
  | .many values => if values.size = 1 then values[0]? else values[index]?

@[simp] theorem inCase_one (index : Nat) (value : α) : (one value).inCase index = some value := rfl

/-- A batch has its entries in the cases of their positions. -/
theorem inCase_of_lt {index : Nat} {values : Array α} (below : index < values.size) :
    (many values).inCase index = some values[index] := by
  simp only [inCase]
  split
  · obtain rfl : index = 0 := by omega
    exact Array.getElem?_eq_getElem below
  · exact Array.getElem?_eq_getElem below

@[simp] theorem inCase_map (f : α → β) (index : Nat) (batch : Batch α) :
    (batch.map f).inCase index = (batch.inCase index).map f := by
  cases batch with
  | one value => rfl
  | many values =>
      simp only [map, inCase, Array.size_map]
      split <;> simp

/-! ### Combining -/

section ZipWith

variable (f : α → β → γ)

theorem zipWith_many_of_size_eq {xs : Array α} {ys : Array β} (same : xs.size = ys.size) :
    zipWith f (many xs) (many ys) = .ok (many (Array.zipWith f xs ys)) := by
  simp [zipWith, same]

theorem getElem?_zipWith (xs : Array α) (ys : Array β) (index : Nat) :
    (Array.zipWith f xs ys)[index]? = Option.map₂ f xs[index]? ys[index]? := by
  rw [Array.getElem?_zipWith]
  cases xs[index]? <;> cases ys[index]? <;> rfl

/-- A batch of one entry is stretched to the size of the batch on its right. -/
theorem zipWith_singleton_left (x : α) (ys : Array β) :
    zipWith f (many #[x]) (many ys) = .ok (many (ys.map (f x))) := by
  by_cases same : (1 : Nat) = ys.size
  · obtain ⟨y, rfl⟩ := Array.size_eq_one_iff.mp same.symm
    rw [zipWith_many_of_size_eq f (by simp)]
    simp
  · simp [zipWith, same]

/-- A batch of one entry is stretched to the size of the batch on its left. -/
theorem zipWith_singleton_right (xs : Array α) (y : β) :
    zipWith f (many xs) (many #[y]) = .ok (many (xs.map (f · y))) := by
  by_cases same : xs.size = 1
  · obtain ⟨x, rfl⟩ := Array.size_eq_one_iff.mp same
    rw [zipWith_many_of_size_eq f (by simp)]
    simp
  · obtain ⟨entries⟩ := xs
    match entries with
    | [] => simp [zipWith]
    | [x] => simp at same
    | _ :: _ :: _ => simp [zipWith]

/-- Batches of incompatible sizes are not combined. -/
theorem zipWith_of_not_compatible {xs : Array α} {ys : Array β}
    (clash : ¬Compatible xs.size ys.size) :
    zipWith f (many xs) (many ys) = .error (.unequalBatches xs.size ys.size) := by
  simp only [Compatible, not_or] at clash
  obtain ⟨different, notLeft, notRight⟩ := clash
  obtain ⟨entries⟩ := xs
  obtain ⟨others⟩ := ys
  simp only [List.size_toArray] at different notLeft notRight
  simp only [zipWith, List.size_toArray, different, if_false]
  match entries, others with
  | [x], _ => simp at notLeft
  | [], [y] => simp at notRight
  | [], [] => simp
  | [], _ :: _ :: _ => simp
  | _ :: _ :: _, [] => simp
  | _ :: _ :: _, [y] => simp at notRight
  | _ :: _ :: _, _ :: _ :: _ => simp

end ZipWith

/-! ### Sizes -/

/-- The size that batches of some sizes have in common when they are combined: the one among
their sizes that is not one, or one if there is no such size. -/
def CommonSize (sizes : Nat → Prop) (size : Nat) : Prop :=
  (size = 1 ∨ sizes size) ∧ ∀ other, sizes other → other = 1 ∨ other = size

theorem CommonSize.compatible {sizes : Nat → Prop} {size m n : Nat} (common : CommonSize sizes size)
    (first : sizes m) (second : sizes n) : Compatible m n := by
  rcases common.2 m first with rfl | rfl
  · exact .inr (.inl rfl)
  · rcases common.2 n second with rfl | rfl
    · exact .inr (.inr rfl)
    · exact .inl rfl

/-- Compatible common sizes have the one in common that is not one. -/
theorem CommonSize.or {sizes others : Nat → Prop} {m n : Nat} (left : CommonSize sizes m)
    (right : CommonSize others n) (compatible : Compatible m n) :
    CommonSize (fun size => sizes size ∨ others size) (if m = 1 then n else m) := by
  unfold CommonSize Compatible at *
  grind

/-- A value is what combining batches of some sizes gives: a single value without any, and else a
batch of their common size. -/
def Spans (sizes : Nat → Prop) : Batch α → Prop
  | .one _ => ∀ size, ¬sizes size
  | .many values => (∃ size, sizes size) ∧ CommonSize sizes values.size

theorem spans_congr {sizes others : Nat → Prop} (same : ∀ size, sizes size ↔ others size)
    {batch : Batch α} : batch.Spans sizes ↔ batch.Spans others := by
  rw [funext fun size => propext (same size)]

/-- The sizes that a value spans are compatible with each other. -/
theorem Spans.compatible {sizes : Nat → Prop} {batch : Batch α} {m n : Nat}
    (spans : batch.Spans sizes) (first : sizes m) (second : sizes n) : Compatible m n := by
  cases batch with
  | one value => exact absurd first (spans m)
  | many values => exact spans.2.compatible first second

/-- Batches of compatible sizes are combined to one of their common size. -/
theorem zipWith_of_compatible (f : α → β → γ) {xs : Array α} {ys : Array β}
    (compatible : Compatible xs.size ys.size) :
    ∃ zs, zipWith f (many xs) (many ys) = .ok (many zs) ∧
      zs.size = (if xs.size = 1 then ys.size else xs.size) ∧
      ∀ index, (many zs).inCase index =
        Option.map₂ f ((many xs).inCase index) ((many ys).inCase index) := by
  rcases compatible with same | single | single
  · refine ⟨_, zipWith_many_of_size_eq f same, by simp [same], ?_⟩
    intro index
    simp only [inCase, Array.size_zipWith, same, Nat.min_self]
    split <;> exact getElem?_zipWith f xs ys _
  · obtain ⟨x, rfl⟩ := Array.size_eq_one_iff.mp single
    refine ⟨_, zipWith_singleton_left f x ys, by simp, ?_⟩
    intro index
    have mapped := inCase_map (f x) index (many ys)
    rw [map] at mapped
    simpa [inCase] using mapped
  · obtain ⟨y, rfl⟩ := Array.size_eq_one_iff.mp single
    refine ⟨_, zipWith_singleton_right f xs y, by simp, ?_⟩
    intro index
    have mapped := inCase_map (f · y) index (many xs)
    rw [map] at mapped
    simpa [inCase] using mapped

/-- Combining two values either gives what their sizes together give, case by case, or is refused
because of two sizes that are not compatible. -/
theorem zipWith_of_spans (f : α → β → γ) {sizes others : Nat → Prop} {x : Batch α} {y : Batch β}
    (left : x.Spans sizes) (right : y.Spans others) :
    (∃ z, zipWith f x y = .ok z ∧ z.Spans (fun size => sizes size ∨ others size) ∧
        ∀ index, z.inCase index = Option.map₂ f (x.inCase index) (y.inCase index)) ∨
      ∃ m n, sizes m ∧ others n ∧ ¬Compatible m n ∧
        zipWith f x y = .error (.unequalBatches m n) := by
  match x, y with
  | .one a, .one b =>
      refine .inl ⟨_, rfl, ?_, fun _ => rfl⟩
      exact fun size => not_or.mpr ⟨left size, right size⟩
  | .one a, .many ys =>
      refine .inl ⟨_, rfl, ?_, fun index => ?_⟩
      · have same : ∀ size, sizes size ∨ others size ↔ others size := fun size =>
          or_iff_right (left size)
        rw [spans_congr same]
        simpa [Spans] using right
      · exact (inCase_map (f a) index (many ys)).trans (Option.map₂_coe_left f a _).symm
  | .many xs, .one b =>
      refine .inl ⟨_, rfl, ?_, fun index => ?_⟩
      · have same : ∀ size, sizes size ∨ others size ↔ sizes size := fun size =>
          or_iff_left (right size)
        rw [spans_congr same]
        simpa [Spans] using left
      · exact (inCase_map (f · b) index (many xs)).trans (Option.map₂_coe_right f _ b).symm
  | .many xs, .many ys =>
      by_cases compatible : Compatible xs.size ys.size
      · obtain ⟨zs, zipped, size, cases⟩ := zipWith_of_compatible f compatible
        obtain ⟨⟨some, given⟩, leftCommon⟩ := left
        refine .inl ⟨_, zipped, ⟨⟨some, .inl given⟩, ?_⟩, cases⟩
        rw [size]
        exact leftCommon.or right.2 compatible
      · -- Sizes that are not compatible are not one, so both of them were there to begin with.
        have leftGiven : sizes xs.size :=
          left.2.1.resolve_left fun single => compatible (.inr (.inl single))
        have rightGiven : others ys.size :=
          right.2.1.resolve_left fun single => compatible (.inr (.inr single))
        exact .inr ⟨_, _, leftGiven, rightGiven, compatible, zipWith_of_not_compatible f compatible⟩

end Batch

end CarrySave
