/-
Module: CarrySave.Proofs.Circuit.Diagonals
Layer: Proofs
Purpose: The array of partial products.  Its diagonals hold every pair of bit positions once, each
  at the weight that its positions add up to, so what the diagonals are worth is a product.
Main exports: mem_diagonal_iff, flatten_diagonals_perm, worth_of_diagonals, sum_diagonals
-/
import CarrySave.Circuit.Operator
import CarrySave.Proofs.Circuit.Heights
import Mathlib.Data.List.ProdSigma
import Mathlib.Tactic.Zify

namespace CarrySave

open Compressor

/-! ### Every pair once -/

/-- A diagonal holds the pairs of positions that add up to its weight. -/
theorem mem_diagonal_iff {m n d i j : Nat} :
    (i, j) ∈ diagonal m n d ↔ i < m ∧ j < n ∧ i + j = d := by
  simp only [diagonal, List.mem_map, List.mem_range'_1, Prod.mk.injEq]
  constructor
  · rintro ⟨k, range, rfl, rfl⟩
    omega
  · rintro ⟨belowM, belowN, rfl⟩
    exact ⟨i, by omega, rfl, by omega⟩

theorem nodup_diagonal (m n d : Nat) : (diagonal m n d).Nodup := by
  apply List.Nodup.map
  · intro i k same
    exact congrArg Prod.fst same
  · exact List.nodup_range'

/-- All pairs of positions are on the diagonals, each of them once. -/
theorem flatten_diagonals_perm (m n : Nat) :
    (diagonals m n).flatten.Perm (List.range m ×ˢ List.range n) := by
  have once : (diagonals m n).flatten.Nodup := by
    rw [List.nodup_flatten]
    constructor
    · intro pairs member
      obtain ⟨d, -, rfl⟩ := List.mem_map.mp member
      exact nodup_diagonal m n d
    · rw [diagonals, List.pairwise_map]
      apply List.nodup_range.imp
      intro d e different pair inFirst inSecond
      have first := (mem_diagonal_iff.mp inFirst).2.2
      have second := (mem_diagonal_iff.mp inSecond).2.2
      exact different (first.symm.trans second)
  rw [List.perm_ext_iff_of_nodup once (List.nodup_range.product List.nodup_range)]
  rintro ⟨i, j⟩
  simp only [diagonals, List.mem_flatten, List.mem_map, List.mem_range, List.mem_product]
  constructor
  · rintro ⟨pairs, ⟨d, -, rfl⟩, member⟩
    obtain ⟨belowM, belowN, -⟩ := mem_diagonal_iff.mp member
    exact ⟨belowM, belowN⟩
  · rintro ⟨belowM, belowN⟩
    exact ⟨_, ⟨i + j, by omega, rfl⟩, mem_diagonal_iff.mpr ⟨belowM, belowN, rfl⟩⟩

theorem length_flatten_diagonals (m n : Nat) : (diagonals m n).flatten.length = m * n := by
  rw [(flatten_diagonals_perm m n).length_eq, List.length_product, List.length_range,
    List.length_range]

/-- When neither operand is empty, no diagonal is. -/
theorem diagonals_ne_nil {m n : Nat} (nonempty : 0 < min m n) :
    ∀ pairs ∈ diagonals m n, pairs ≠ [] := by
  intro pairs member
  obtain ⟨d, range, rfl⟩ := List.mem_map.mp member
  have below := List.mem_range.mp range
  have there : (min d (m - 1), d - min d (m - 1)) ∈ diagonal m n d :=
    mem_diagonal_iff.mpr (by omega)
  exact List.ne_nil_of_mem there

/-! ### What diagonals are worth -/

/-- A sum over all pairs of a product is the product of the sums. -/
theorem sum_product_mul (f g : Nat → Int) (xs ys : List Nat) :
    ((xs ×ˢ ys).map fun pair => f pair.1 * g pair.2).sum = (xs.map f).sum * (ys.map g).sum := by
  induction xs with
  | nil => simp
  | cons x rest inductionHypothesis =>
      have row : ((ys.map (Prod.mk x)).map fun pair => f pair.1 * g pair.2).sum =
          f x * (ys.map g).sum := by
        rw [List.map_map, ← List.sum_map_mul_left]
        rfl
      rw [List.product_cons, List.map_append, List.sum_append, row, inductionHypothesis,
        List.map_cons, List.sum_cons, add_mul]

/-- Over all diagonals, products at the weights of their places add up to the product of the
numbers that the factors make. -/
theorem sum_diagonals (u v : Nat → Int) (m n : Nat) :
    ((diagonals m n).flatten.map fun pair =>
        u pair.1 * v pair.2 * 2 ^ (pair.1 + pair.2)).sum =
      ((List.range m).map fun i => u i * 2 ^ i).sum *
        ((List.range n).map fun j => v j * 2 ^ j).sum := by
  rw [((flatten_diagonals_perm m n).map _).sum_eq, ← sum_product_mul]
  congr 2
  funext pair
  rw [pow_add]
  ring

/-- Columns with the values of diagonals are worth what the diagonals are, every value taken at
the weight of its place. -/
theorem worth_of_graded {value : Nat → Int} {entry : Nat × Nat → Int}
    {columns : List (List Nat)} {array : List (List (Nat × Nat))} {lowest : Nat}
    (graded : ∀ column ∈ array.zipIdx lowest, ∀ pair ∈ column.1, pair.1 + pair.2 = column.2)
    (values : columns.map (·.map value) = array.map (·.map entry)) :
    worth value lowest columns =
      (array.flatten.map fun pair => entry pair * 2 ^ (pair.1 + pair.2)).sum := by
  induction array generalizing columns lowest with
  | nil =>
      obtain rfl := List.map_eq_nil_iff.mp values
      rfl
  | cons pairs array inductionHypothesis =>
      cases columns with
      | nil => cases values
      | cons column rest =>
          have first : column.map value = pairs.map entry := (List.cons.inj values).1
          have above := (List.cons.inj values).2
          rw [List.zipIdx_cons, List.forall_mem_cons] at graded
          have weights : (pairs.map fun pair => entry pair * 2 ^ (pair.1 + pair.2)) =
              pairs.map fun pair => entry pair * 2 ^ lowest := by
            apply List.map_congr_left
            intro pair member
            rw [graded.1 pair member]
          rw [worth_cons, inductionHypothesis graded.2 above, first, List.flatten_cons,
            List.map_append, List.sum_append, weights, List.sum_map_mul_right]

/-- Columns with the products of diagonals are worth the product of the numbers that the factors
make. -/
theorem worth_of_diagonals {value : Nat → Int} {u v : Nat → Int} {m n : Nat}
    {columns : List (List Nat)}
    (values : columns.map (·.map value) =
      (diagonals m n).map (·.map fun pair => u pair.1 * v pair.2)) :
    worth value 0 columns =
      ((List.range m).map fun i => u i * 2 ^ i).sum *
        ((List.range n).map fun j => v j * 2 ^ j).sum := by
  rw [worth_of_graded ?_ values, sum_diagonals]
  rintro ⟨pairs, d⟩ place ⟨i, j⟩ member
  rw [List.mem_zipIdx_iff_getElem?, diagonals, List.getElem?_map] at place
  obtain ⟨e, known, rfl⟩ := Option.map_eq_some_iff.mp place
  obtain ⟨below, same⟩ := List.getElem?_eq_some_iff.mp known
  rw [List.getElem_range] at same
  exact (mem_diagonal_iff.mp member).2.2.trans same.symm

/-! ### How much diagonals are worth at most -/

theorem sum_two_pow (m : Nat) : ((List.range m).map fun i => (1 : Int) * 2 ^ i).sum + 1 = 2 ^ m := by
  induction m with
  | zero => rfl
  | succ m inductionHypothesis =>
      rw [List.range_succ, List.map_append, List.sum_append, List.map_singleton,
        List.sum_singleton, pow_succ]
      linear_combination inductionHypothesis

theorem size_two_pow_sub_one (n : Nat) : (2 ^ n - 1).size = n := by
  cases n with
  | zero => simp
  | succ n =>
      have double : 2 ^ (n + 1) = 2 * 2 ^ n := pow_succ' 2 n
      have positive := Nat.two_pow_pos n
      exact size_eq_succ (by omega) (by omega)

section Heights

variable {columns : List (List Nat)} {m n : Nat}
  (heights : columns.map List.length = (diagonals m n).map List.length)

include heights

/-- Columns of the heights of diagonals are worth at most the product of the largest factors. -/
theorem capacity_of_diagonals : capacity columns + 2 ^ m + 2 ^ n = 2 ^ (m + n) + 1 := by
  have ones : columns.map (·.map fun _ => (1 : Int)) =
      (diagonals m n).map (·.map fun _ => (1 : Int) * 1) := by
    have replicated := congrArg (·.map fun height => List.replicate height (1 : Int)) heights
    simpa [Function.comp_def] using replicated
  have total : worth (fun _ => 1) 0 columns =
      ((List.range m).map fun i => 1 * 2 ^ i).sum * ((List.range n).map fun j => 1 * 2 ^ j).sum :=
    worth_of_diagonals ones
  rw [worth_one, pow_zero, mul_one] at total
  have first := sum_two_pow m
  have second := sum_two_pow n
  zify
  rw [total, pow_add, ← first, ← second]
  ring

/-- Columns of the heights of diagonals are worth nothing when an operand is empty. -/
theorem capacity_of_diagonals_empty (empty : min m n = 0) : capacity columns = 0 := by
  have total := capacity_of_diagonals heights
  rcases Nat.min_eq_zero_iff.mp empty with rfl | rfl
  · rw [pow_zero, zero_add] at total
    omega
  · rw [pow_zero, add_zero] at total
    omega

/-- Columns of the heights of diagonals have no gaps. -/
theorem gapless_of_heights : Gapless columns := by
  rcases Nat.eq_zero_or_pos (min m n) with empty | nonempty
  · exact gapless_of_capacity_eq_zero (capacity_of_diagonals_empty heights empty)
  · apply gapless_of_ne_nil
    rintro column member rfl
    have zero : 0 ∈ (diagonals m n).map List.length := by
      rw [← heights]
      exact List.mem_map_of_mem member
    obtain ⟨pairs, place, height⟩ := List.mem_map.mp zero
    exact diagonals_ne_nil nonempty pairs place (List.length_eq_zero_iff.mp height)

/-- When an operand is a single bit, products have the digits of the other operand. -/
theorem size_capacity_of_narrow (narrow : min m n = 1) :
    (capacity columns).size = m + n - 1 := by
  have total := capacity_of_diagonals heights
  rw [pow_add] at total
  rcases (by omega : m = 1 ∨ n = 1) with rfl | rfl
  · have largest : capacity columns = 2 ^ n - 1 := by
      rw [pow_one] at total
      omega
    rw [largest, size_two_pow_sub_one, Nat.add_sub_cancel_left]
  · have largest : capacity columns = 2 ^ m - 1 := by
      rw [pow_one] at total
      omega
    rw [largest, size_two_pow_sub_one, Nat.add_sub_cancel]

/-- When both operands have two bits or more, products have the digits of both. -/
theorem size_capacity_of_wide (wide : 2 ≤ min m n) : (capacity columns).size = m + n := by
  have total := capacity_of_diagonals heights
  -- Half of each power of two is a power of two again, and at least two.
  obtain ⟨p, rfl⟩ : ∃ p, m = p + 1 := ⟨m - 1, by omega⟩
  obtain ⟨q, rfl⟩ : ∃ q, n = q + 1 := ⟨n - 1, by omega⟩
  have doubleP : 2 ^ (p + 1) = 2 * 2 ^ p := pow_succ' 2 p
  have doubleQ : 2 ^ (q + 1) = 2 * 2 ^ q := pow_succ' 2 q
  have double : 2 ^ (p + 1 + (q + 1)) = 2 * 2 ^ (p + 1 + q) := pow_succ' 2 (p + 1 + q)
  have half : 2 ^ (p + 1 + q) = 2 * (2 ^ p * 2 ^ q) := by rw [pow_add, doubleP, mul_assoc]
  have twoP : 2 ^ 1 ≤ 2 ^ p := Nat.pow_le_pow_right (by decide) (by omega)
  have twoQ : 2 ^ 1 ≤ 2 ^ q := Nat.pow_le_pow_right (by decide) (by omega)
  have largeP : 2 ^ p * 2 ≤ 2 ^ p * 2 ^ q := Nat.mul_le_mul_left (2 ^ p) twoQ
  have largeQ : 2 * 2 ^ q ≤ 2 ^ p * 2 ^ q := Nat.mul_le_mul_right (2 ^ q) twoP
  have digits : (capacity columns).size = p + 1 + q + 1 := size_eq_succ (by omega) (by omega)
  exact digits

/-- How many digits the largest product has. -/
theorem size_capacity_of_diagonals :
    (capacity columns).size =
      if min m n = 0 then 0 else if min m n = 1 then m + n - 1 else m + n := by
  split
  · rename_i empty
    rw [capacity_of_diagonals_empty heights empty, Nat.size_zero]
  · split
    · rename_i narrow
      exact size_capacity_of_narrow heights narrow
    · exact size_capacity_of_wide heights (by omega)

end Heights

end CarrySave
