/-
Module: CarrySave.Proofs.Circuit.ProductArray
Layer: Proofs
Purpose: The gates of the array of partial products, one by one.  The products are built diagonal by
  diagonal, so a bit meets the bits of the other operand in their order.  Each product takes three
  gates, a copy of either bit and the conjunction of the copies, and what it copies is the latest copy
  of its bits: the one that was made for the product before it in its row or in its column.
Main exports: Precedes, pairwise_precedes_diagonals, mem_before_iff, tripleAt, Netlist.HasTriple,
  Latest, Multiplying, partialProducts_multiplying, multiplier_products
-/
import CarrySave.Proofs.Circuit.Multiplication
import CarrySave.Proofs.Session.Invariant

namespace CarrySave

open Compressor

/-! ### The order of the products -/

/-- The order in which the products of pairs of places are built: by weight, and at one weight by the
place in the first operand. -/
def Precedes (first second : Nat × Nat) : Prop :=
  first.1 + first.2 < second.1 + second.2 ∨
    (first.1 + first.2 = second.1 + second.2 ∧ first.1 < second.1)

theorem Precedes.irrefl (pair : Nat × Nat) : ¬Precedes pair pair := by
  simp [Precedes]

theorem Precedes.asymm {first second : Nat × Nat} (one : Precedes first second) :
    ¬Precedes second first := by
  simp only [Precedes] at one ⊢
  omega

theorem pairwise_precedes_diagonal (m n d : Nat) : (diagonal m n d).Pairwise Precedes := by
  rw [diagonal, List.pairwise_map]
  apply List.Pairwise.imp_of_mem _ List.pairwise_lt_range'
  intro i k memberI memberK less
  rw [List.mem_range'_1] at memberI memberK
  simp only [Precedes]
  omega

/-- Diagonal by diagonal the pairs come in this order. -/
theorem pairwise_precedes_diagonals (m n : Nat) : (diagonals m n).flatten.Pairwise Precedes := by
  rw [List.pairwise_flatten]
  constructor
  · intro pairs member
    obtain ⟨d, -, rfl⟩ := List.mem_map.mp member
    exact pairwise_precedes_diagonal m n d
  · rw [diagonals, List.pairwise_map]
    apply List.pairwise_lt_range.imp
    intro d e less first inFirst second inSecond
    have weightFirst := (mem_diagonal_iff.mp inFirst).2.2
    have weightSecond := (mem_diagonal_iff.mp inSecond).2.2
    left
    rw [weightFirst, weightSecond]
    exact less

theorem mem_flatten_diagonals_iff {m n i j : Nat} :
    (i, j) ∈ (diagonals m n).flatten ↔ i < m ∧ j < n := by
  rw [(flatten_diagonals_perm m n).mem_iff, List.mem_product, List.mem_range, List.mem_range]

theorem nodup_of_pairwise_precedes {pairs : List (Nat × Nat)} (sorted : pairs.Pairwise Precedes) :
    pairs.Nodup := by
  apply sorted.imp
  rintro first second precedes rfl
  exact precedes.irrefl

/-- The pairs of one weight are those of its diagonal. -/
theorem filter_flatten_diagonals (m n d : Nat) :
    (diagonals m n).flatten.filter (fun pair => pair.1 + pair.2 = d) = diagonal m n d := by
  have sorted := (pairwise_precedes_diagonals m n).filter fun pair => pair.1 + pair.2 = d
  have perm : ((diagonals m n).flatten.filter fun pair => pair.1 + pair.2 = d).Perm
      (diagonal m n d) := by
    rw [List.perm_ext_iff_of_nodup (nodup_of_pairwise_precedes sorted) (nodup_diagonal m n d)]
    rintro ⟨i, j⟩
    rw [List.mem_filter, mem_flatten_diagonals_iff, mem_diagonal_iff, decide_eq_true_eq, and_assoc]
  exact perm.eq_of_pairwise (fun first second _ _ one two => absurd two one.asymm) sorted
    (pairwise_precedes_diagonal m n d)

/-- What comes before a pair in the order of the products are the pairs that precede it. -/
theorem mem_before_iff {pairs before after : List (Nat × Nat)} {pair other : Nat × Nat}
    (split : pairs = before ++ pair :: after) (sorted : pairs.Pairwise Precedes) :
    other ∈ before ↔ other ∈ pairs ∧ Precedes other pair := by
  subst split
  obtain ⟨-, fromPair, across⟩ := List.pairwise_append.mp sorted
  constructor
  · intro member
    exact ⟨List.mem_append_left _ member, across other member pair List.mem_cons_self⟩
  · rintro ⟨member, precedes⟩
    rcases List.mem_append.mp member with early | late
    · exact early
    · rcases List.mem_cons.mp late with rfl | later
      · exact absurd precedes (Precedes.irrefl other)
      · exact absurd precedes ((List.pairwise_cons.mp fromPair).1 other later).asymm

/-! ### Triples of gates -/

/-- The first wire of the triple of a pair, when the triples of some pairs follow each other in a
netlist from a wire on. -/
def tripleAt (base : Nat) (pairs : List (Nat × Nat)) (pair : Nat × Nat) : Nat :=
  base + 3 * pairs.idxOf pair

theorem tripleAt_append (base : Nat) {pair : Nat × Nat} {before : List (Nat × Nat)}
    (after : List (Nat × Nat)) (new : pair ∉ before) :
    tripleAt base (before ++ pair :: after) pair = base + 3 * before.length := by
  rw [tripleAt, List.idxOf_append_of_notMem new, List.idxOf_cons_self, Nat.add_zero]

/-- From a wire on there are a buffer of either source and the conjunction of the two buffers. -/
def Netlist.HasTriple (nl : Netlist) (first : Nat) (sourceA sourceB : Option Nat) : Prop :=
  nl.gates[first]? = sourceA.map .buffer ∧ nl.gates[first + 1]? = sourceB.map .buffer ∧
    nl.gates[first + 2]? = some (.logic .and first (first + 1))

theorem Netlist.HasTriple.grows {nl grown : Netlist} {first : Nat} {sourceA sourceB : Option Nat}
    (triple : nl.HasTriple first sourceA sourceB) (growth : nl.Grows grown) :
    grown.HasTriple first sourceA sourceB := by
  obtain ⟨copyA, copyB, product⟩ := triple
  have below := lt_size_of_getElem? product
  refine ⟨?_, ?_, ?_⟩
  · rw [growth.getElem?_eq (by omega), copyA]
  · rw [growth.getElem?_eq (by omega), copyB]
  · rw [growth.getElem?_eq below, product]

theorem Netlist.hasTriple_withProduct (nl : Netlist) (x y : Nat) :
    (nl.withProduct x y).HasTriple nl.size (some x) (some y) := by
  have sizes : (nl.push (.buffer x)).size = nl.size + 1 ∧
      ((nl.push (.buffer x)).push (.buffer y)).size = nl.size + 2 := by simp
  refine ⟨?_, ?_, ?_⟩
  · rw [withProduct, getElem?_push_of_lt (by omega), getElem?_push_of_lt (by omega),
      getElem?_push_size]
    rfl
  · rw [withProduct, getElem?_push_of_lt (by omega), ← sizes.1, getElem?_push_size]
    rfl
  · rw [withProduct, ← sizes.2, getElem?_push_size]

/-! ### Latest copies -/

/-- What the copy of a bit is made from at its turns: from the bit at first, and then from the copy
of the turn before. -/
def sourceAt (wires : List Nat) (copy : Nat → Nat → Nat) (place : Nat) : Nat → Option Nat
  | 0 => wires[place]?
  | turn + 1 => some (copy place turn)

/-- The current wires of an operand stand for the latest copies of its bits: the copies have been made
for some turns at each place, and next up is what the turn after them copies. -/
def Latest (wires : List Nat) (copy : Nat → Nat → Nat) (made : Nat → Nat → Prop)
    (current : List Nat) : Prop :=
  current.length = wires.length ∧
    ∀ place < wires.length, ∀ turns, (∀ turn, made place turn ↔ turn < turns) →
      current[place]? = sourceAt wires copy place turns

theorem latest_start (wires : List Nat) (copy : Nat → Nat → Nat) :
    Latest wires copy (fun _ _ => False) wires := by
  refine ⟨rfl, ?_⟩
  intro place _ turns none
  cases turns with
  | zero => rfl
  | succ turns => exact ((none 0).mpr (Nat.succ_pos turns)).elim

/-- When a bit has been copied at its next turn, the copy takes its place. -/
theorem Latest.copied {wires current : List Nat} {copy : Nat → Nat → Nat}
    {made later : Nat → Nat → Prop} {place turns : Nat} (latest : Latest wires copy made current)
    (sofar : ∀ turn, made place turn ↔ turn < turns)
    (more : ∀ other turn, later other turn ↔ made other turn ∨ (other = place ∧ turn = turns)) :
    Latest wires copy later (current.set place (copy place turns)) := by
  obtain ⟨same, current_eq⟩ := latest
  refine ⟨by rw [List.length_set, same], ?_⟩
  intro other below count counted
  simp only [more] at counted
  by_cases here : other = place
  · subst here
    -- The turns up to this one have been taken, so there is only one number that fits.
    simp only [true_and, sofar] at counted
    obtain rfl : count = turns + 1 := by
      have taken := counted turns
      have notTaken := counted (turns + 1)
      omega
    rw [List.getElem?_set_self (by omega), sourceAt]
  · simp only [here, false_and, or_false] at counted
    rw [List.getElem?_set_ne (Ne.symm here), current_eq other below count counted]

/-! ### The array while it is being built -/

section Building

variable {start : Netlist} {a b : List Nat} {pairs : List (Nat × Nat)}

/-- The copy of a bit of the first operand that is made for a product, by the places of the product. -/
def copyOfA (start : Netlist) (pairs : List (Nat × Nat)) (i j : Nat) : Nat :=
  tripleAt start.size pairs (i, j)

/-- The copy of a bit of the second operand that is made for a product, its own place first. -/
def copyOfB (start : Netlist) (pairs : List (Nat × Nat)) (j i : Nat) : Nat :=
  tripleAt start.size pairs (i, j) + 1

/-- What holds when the products of the pairs before a certain one have been built: their triples
stand in the netlist, and the operands are the latest copies. -/
structure Multiplying (start : Netlist) (a b : List Nat) (pairs before : List (Nat × Nat))
    (nl : Netlist) (copiesA copiesB : List Nat) : Prop where
  grows : start.Grows nl
  size_eq : nl.size = start.size + 3 * before.length
  hasA : nl.Has copiesA
  hasB : nl.Has copiesB
  latestA : Latest a (copyOfA start pairs) (fun i j => (i, j) ∈ before) copiesA
  latestB : Latest b (copyOfB start pairs) (fun j i => (i, j) ∈ before) copiesB
  triples : ∀ i j, (i, j) ∈ before →
    nl.HasTriple (tripleAt start.size pairs (i, j)) (sourceAt a (copyOfA start pairs) i j)
      (sourceAt b (copyOfB start pairs) j i)

theorem multiplying_start (pairs : List (Nat × Nat)) (hasA : start.Has a) (hasB : start.Has b) :
    Multiplying start a b pairs [] start a b where
  grows := .refl
  size_eq := rfl
  hasA := hasA
  hasB := hasB
  latestA := by simpa using latest_start a (copyOfA start pairs)
  latestB := by simpa using latest_start b (copyOfB start pairs)
  triples := by simp

variable (sorted : pairs.Pairwise Precedes)
  (all : ∀ i j, (i, j) ∈ pairs ↔ i < a.length ∧ j < b.length)

include sorted all

/-- The next product takes the latest copies of its bits and puts new ones in their places. -/
theorem partialProduct_multiplying {before after : List (Nat × Nat)} {i j : Nat}
    (split : pairs = before ++ (i, j) :: after) {nl : Netlist} {copiesA copiesB : List Nat}
    (sofar : Multiplying start a b pairs before nl copiesA copiesB) :
    ∃ (grown : Netlist) (laterA laterB : List Nat),
      (partialProduct ⟨copiesA.map .wire, copiesB.map .wire⟩ i j).run nl =
        .ok (tripleAt start.size pairs (i, j) + 2, ⟨laterA.map .wire, laterB.map .wire⟩) grown ∧
      Multiplying start a b pairs (before ++ [(i, j)]) grown laterA laterB := by
  obtain ⟨belowA, belowB⟩ := (all i j).mp (by simp [split])
  have turnsA : ∀ turn, (i, turn) ∈ before ↔ turn < j := by
    intro turn
    rw [mem_before_iff split sorted, all, Precedes]
    omega
  have turnsB : ∀ turn, (turn, j) ∈ before ↔ turn < i := by
    intro turn
    rw [mem_before_iff split sorted, all, Precedes]
    omega
  have sourceA := sofar.latestA.2 i belowA j turnsA
  have sourceB := sofar.latestB.2 j belowB i turnsB
  have insideA : i < copiesA.length := sofar.latestA.1.symm ▸ belowA
  have insideB : j < copiesB.length := sofar.latestB.1.symm ▸ belowB
  rw [List.getElem?_eq_getElem insideA] at sourceA
  rw [List.getElem?_eq_getElem insideB] at sourceB
  have new : (i, j) ∉ before := fun member => Nat.lt_irrefl j ((turnsA j).mp member)
  have place : tripleAt start.size pairs (i, j) = nl.size := by
    rw [split, tripleAt_append start.size after new, sofar.size_eq]
  obtain ⟨extended, copiedA, copiedB, -⟩ := withProduct_spec sofar.hasA sofar.hasB insideA insideB
  refine ⟨nl.withProduct copiesA[i] copiesB[j], copiesA.set i nl.size, copiesB.set j (nl.size + 1),
    ?_, ?_⟩
  · rw [place, run_partialProduct sofar.hasA sofar.hasB insideA insideB]
  · constructor
    · exact sofar.grows.trans extended.grows
    · rw [List.length_append, List.length_singleton]
      simp only [Netlist.withProduct, Netlist.size_push, sofar.size_eq]
      omega
    · exact copiedA.has
    · exact copiedB.has
    · rw [← place]
      exact sofar.latestA.copied turnsA (by simp)
    · rw [← place]
      exact sofar.latestB.copied turnsB (by simp [and_comm])
    · intro k l member
      rcases List.mem_append.mp member with early | late
      · exact (sofar.triples k l early).grows extended.grows
      · obtain ⟨rfl, rfl⟩ := Prod.mk.inj (List.mem_singleton.mp late)
        rw [place, ← sourceA, ← sourceB]
        exact nl.hasTriple_withProduct _ _

/-- The products along a diagonal are the third wires of the triples of its pairs. -/
theorem diagonalProducts_multiplying {before row after : List (Nat × Nat)}
    (split : pairs = before ++ row ++ after) {nl : Netlist} {copiesA copiesB : List Nat}
    (sofar : Multiplying start a b pairs before nl copiesA copiesB) :
    ∃ (grown : Netlist) (laterA laterB : List Nat),
      (diagonalProducts ⟨copiesA.map .wire, copiesB.map .wire⟩ row).run nl =
        .ok ((row.map fun pair => tripleAt start.size pairs pair + 2).map .wire,
          ⟨laterA.map .wire, laterB.map .wire⟩) grown ∧
      Multiplying start a b pairs (before ++ row) grown laterA laterB := by
  induction row generalizing before nl copiesA copiesB with
  | nil =>
      rw [List.append_nil]
      exact ⟨nl, copiesA, copiesB, rfl, sofar⟩
  | cons pair rest inductionHypothesis =>
      obtain ⟨i, j⟩ := pair
      obtain ⟨middle, nextA, nextB, first, next⟩ :=
        partialProduct_multiplying sorted all (by rw [split, List.append_assoc]; rfl) sofar
      have splitRest : pairs = before ++ [(i, j)] ++ rest ++ after := by simp [split]
      obtain ⟨grown, laterA, laterB, runs, done⟩ := inductionHypothesis splitRest next
      refine ⟨grown, laterA, laterB, run_diagonalProducts_cons first runs, ?_⟩
      rw [List.append_assoc] at done
      exact done

/-- The columns of products are the third wires of the triples, diagonal by diagonal. -/
theorem partialProducts_multiplying {before : List (Nat × Nat)} {array : List (List (Nat × Nat))}
    (split : pairs = before ++ array.flatten) {nl : Netlist} {copiesA copiesB : List Nat}
    (sofar : Multiplying start a b pairs before nl copiesA copiesB) :
    ∃ (grown : Netlist) (laterA laterB : List Nat),
      (partialProducts ⟨copiesA.map .wire, copiesB.map .wire⟩ array).run nl =
        .ok (references (array.map (·.map fun pair => tripleAt start.size pairs pair + 2))) grown ∧
      Multiplying start a b pairs pairs grown laterA laterB := by
  induction array generalizing before nl copiesA copiesB with
  | nil =>
      obtain rfl : pairs = before := by simpa using split
      exact ⟨nl, copiesA, copiesB, rfl, sofar⟩
  | cons row rest inductionHypothesis =>
      rw [List.flatten_cons, ← List.append_assoc] at split
      obtain ⟨middle, nextA, nextB, first, next⟩ :=
        diagonalProducts_multiplying sorted all split sofar
      obtain ⟨grown, laterA, laterB, runs, done⟩ := inductionHypothesis split next
      exact ⟨grown, laterA, laterB, run_partialProducts_cons first runs, done⟩

end Building

/-! ### The array of a multiplier -/

/-- The columns of products that a multiplier hands to compression: those of one weight in a column,
each the third wire of its triple. -/
def productColumns (base m n : Nat) : List (List Nat) :=
  (diagonals m n).map (·.map fun pair => tripleAt base (diagonals m n).flatten pair + 2)

/-- The products of existing bits are built without fail, pair by pair along the diagonals. -/
theorem partialProducts_diagonals {nl : Netlist} {a b : List Nat} (hasA : nl.Has a)
    (hasB : nl.Has b) :
    ∃ (array : Netlist) (copiesA copiesB : List Nat),
      (partialProducts ⟨a.map .wire, b.map .wire⟩ (diagonals a.length b.length)).run nl =
        .ok (references (productColumns nl.size a.length b.length)) array ∧
      Multiplying nl a b (diagonals a.length b.length).flatten
        (diagonals a.length b.length).flatten array copiesA copiesB :=
  partialProducts_multiplying (pairwise_precedes_diagonals _ _)
    (fun _ _ => mem_flatten_diagonals_iff) rfl (multiplying_start _ hasA hasB)

theorem Multiplying.has_productColumns {start array : Netlist} {a b copiesA copiesB : List Nat}
    (built : Multiplying start a b (diagonals a.length b.length).flatten
      (diagonals a.length b.length).flatten array copiesA copiesB) :
    ∀ column ∈ productColumns start.size a.length b.length, array.Has column := by
  intro column member wire place
  obtain ⟨row, memberRow, rfl⟩ := List.mem_map.mp member
  obtain ⟨⟨i, j⟩, memberPair, rfl⟩ := List.mem_map.mp place
  have triple := built.triples i j (List.mem_flatten_of_mem memberRow memberPair)
  exact Netlist.lt_size_of_getElem? triple.2.2

/-- A column holds the products of the pairs of its weight, in order. -/
theorem getElem?_productColumns {base m n d : Nat} (below : d < m + n - 1) :
    (productColumns base m n)[d]? =
      some (((diagonals m n).flatten.filter fun pair => pair.1 + pair.2 = d).map fun pair =>
        tripleAt base (diagonals m n).flatten pair + 2) := by
  have row : (diagonals m n)[d]? = some (diagonal m n d) := by
    rw [diagonals, List.getElem?_map, List.getElem?_range below, Option.map_some]
  rw [filter_flatten_diagonals, productColumns, List.getElem?_map, row, Option.map_some]

/-- The places of a diagonal, counted in integers: none is negative, and none is beyond an operand. -/
theorem diagonal_places {m n d : Nat} {i : Int} :
    max 0 ((d : Int) - n + 1) ≤ i ∧ i < min (m : Int) (d + 1) ↔
      ∃ pair ∈ diagonal m n d, pair.1 < m ∧ pair.2 < n ∧ i = pair.1 ∧ d - i = pair.2 := by
  constructor
  · rintro ⟨least, most⟩
    have natural : 0 ≤ i := by omega
    obtain ⟨k, rfl⟩ := Int.eq_ofNat_of_zero_le natural
    refine ⟨(k, d - k), mem_diagonal_iff.mpr ?_, ?_, ?_, rfl, ?_⟩ <;> omega
  · rintro ⟨⟨k, l⟩, member, belowM, belowN, rfl, same⟩
    simp only at belowM belowN same ⊢
    omega

/-- The gates that a multiplier adds before it compresses, at every width.  They are triples, a
buffer of a bit of either operand and the conjunction of the two buffers, one for each pair of places,
by weight and then by the place in the first operand.  The first product of a bit copies the bit, and
each later one copies the copy before it.  The column of a weight holds the products of the pairs of
that weight in order.  Counted in integers, the places of a diagonal are those from which none of the
two operands is left. -/
theorem multiplier_products {nl : Netlist} {a b : List Nat} (hasA : nl.Has a) (hasB : nl.Has b) :
    let pairs := (diagonals a.length b.length).flatten
    let triple := tripleAt nl.size pairs
    ∃ (columns : List (List Nat)) (array grown : Netlist) (outputs : List Nat),
      -- The order of the triples.
      pairs.Pairwise Precedes ∧ pairs.Nodup ∧
      (∀ i j, (i, j) ∈ pairs ↔ i < a.length ∧ j < b.length) ∧
      -- The products, and the compression that they are handed to.
      (partialProducts ⟨a.map .wire, b.map .wire⟩ (diagonals a.length b.length)).run nl =
        .ok (references columns) array ∧
      (compress (references columns)).run array = .ok (outputs.map .wire) grown ∧
      (multiplier (a.map .wire) (b.map .wire)).run nl = .ok (outputs.map .wire) grown ∧
      -- The gates.
      nl.gates.toList <+: array.gates.toList ∧ array.gates.toList <+: grown.gates.toList ∧
      array.size = nl.size + 3 * (a.length * b.length) ∧
      (∀ (i j : Nat) (belowA : i < a.length) (belowB : j < b.length),
        grown.gates[triple (i, j)]? =
          some (.buffer (if j = 0 then a[i] else triple (i, j - 1))) ∧
        grown.gates[triple (i, j) + 1]? =
          some (.buffer (if i = 0 then b[j] else triple (i - 1, j) + 1)) ∧
        grown.gates[triple (i, j) + 2]? =
          some (.logic .and (triple (i, j)) (triple (i, j) + 1))) ∧
      -- The columns.
      columns.length = a.length + b.length - 1 ∧
      ∀ d < a.length + b.length - 1,
        columns[d]? = some ((pairs.filter fun pair => pair.1 + pair.2 = d).map (triple · + 2)) ∧
        ∀ i : Int, max 0 ((d : Int) - b.length + 1) ≤ i ∧ i < min (a.length : Int) (d + 1) ↔
          ∃ pair ∈ diagonal a.length b.length d,
            pair.1 < a.length ∧ pair.2 < b.length ∧ i = pair.1 ∧ d - i = pair.2 := by
  intro pairs triple
  obtain ⟨array, copiesA, copiesB, products, built⟩ := partialProducts_diagonals hasA hasB
  obtain ⟨bits, last, compressed, run, -⟩ := compress_run built.has_productColumns
  have sorted : pairs.Pairwise Precedes := pairwise_precedes_diagonals _ _
  have count : pairs.length = a.length * b.length := length_flatten_diagonals _ _
  refine ⟨productColumns nl.size a.length b.length, array, last.netlist, bits.map (·.2), sorted,
    nodup_of_pairwise_precedes sorted, fun _ _ => mem_flatten_diagonals_iff, products, compressed,
    ?_, built.grows.gates_initial, run.grows.gates_initial, ?_, ?_, ?_, ?_⟩
  · simp only [multiplier, List.length_map, EStateM.run_bind, products, compressed]
  · rw [built.size_eq, count]
  · intro i j belowA belowB
    have member : (i, j) ∈ pairs := mem_flatten_diagonals_iff.mpr ⟨belowA, belowB⟩
    obtain ⟨first, second, third⟩ := (built.triples i j member).grows run.grows
    refine ⟨first.trans ?_, second.trans ?_, third⟩
    · cases j with
      | zero => simp [sourceAt, belowA]
      | succ j => rfl
    · cases i with
      | zero => simp [sourceAt, belowB]
      | succ i => rfl
  · simp [productColumns, diagonals]
  · intro d below
    exact ⟨getElem?_productColumns below, fun _ => diagonal_places⟩

/-- Two bits, of which one is repeated, times two bits that share a wire with them. -/
theorem multiplier_products_threeInputs :
    threeInputs.Has [0, 0] ∧ threeInputs.Has [0, 2] ∧
    ∃ (outputs : List Nat) (grown : Netlist),
      (multiplier [.wire 0, .wire 0] [.wire 0, .wire 2]).run threeInputs =
        .ok (outputs.map .wire) grown ∧
      -- The first bits are multiplied first, and copied again for the pairs of weight one.
      grown.gates[3]? = some (.buffer 0) ∧ grown.gates[4]? = some (.buffer 0) ∧
      grown.gates[6]? = some (.buffer 3) ∧ grown.gates[7]? = some (.buffer 2) ∧
      grown.gates[9]? = some (.buffer 0) ∧ grown.gates[10]? = some (.buffer 4) ∧
      grown.gates[12]? = some (.buffer 9) ∧ grown.gates[13]? = some (.buffer 7) ∧
      grown.gates[14]? = some (.logic .and 12 13) := by
  have hasA : threeInputs.Has [0, 0] := by decide
  have hasB : threeInputs.Has [0, 2] := by decide
  obtain ⟨-, -, grown, outputs, -, -, -, -, -, runs, -, -, -, gates, -⟩ :=
    multiplier_products hasA hasB
  obtain ⟨first, second, -⟩ := gates 0 0 (by decide) (by decide)
  obtain ⟨third, fourth, -⟩ := gates 0 1 (by decide) (by decide)
  obtain ⟨fifth, sixth, -⟩ := gates 1 0 (by decide) (by decide)
  obtain ⟨seventh, eighth, product⟩ := gates 1 1 (by decide) (by decide)
  exact ⟨hasA, hasB, outputs, grown, runs, first, second, third, fourth, fifth, sixth, seventh,
    eighth, product⟩

end CarrySave
