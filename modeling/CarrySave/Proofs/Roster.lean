/-
Module: CarrySave.Proofs.Roster
Layer: Proofs
Purpose: Tables whose entries have keys of their own.  Entering new keys appends them in order,
  and every entry is found under its key.
Main exports: Roster.get?_mapValues, Roster.insertMany_of_nodup, Roster.ofList_of_nodup,
  Roster.override_of_nodup, Roster.get?_of_mem
-/
import CarrySave.Roster
import Mathlib.Data.List.Nodup

namespace CarrySave.Roster

variable {κ ν : Type} [DecidableEq κ]

/-- Applying a function to every value of a table applies it to what is found. -/
theorem get?_mapValues {μ : Type} (f : ν → μ) (table : Roster κ ν) (key : κ) :
    (table.mapValues f).get? key = (table.get? key).map f := by
  obtain ⟨entries⟩ := table
  simp only [get?, mapValues]
  induction entries with
  | nil => rfl
  | cons entry rest inductionHypothesis =>
      obtain ⟨k, v⟩ := entry
      by_cases same : key = k
      · simp [same]
      · simpa [List.lookup_cons, beq_eq_false_iff_ne.mpr same] using inductionHypothesis

/-- A new key is entered at the end. -/
theorem insertInto_of_notMem {key : κ} {value : ν} {entries : List (κ × ν)}
    (new : key ∉ entries.map (·.1)) : insertInto key value entries = entries ++ [(key, value)] := by
  induction entries with
  | nil => rfl
  | cons entry rest inductionHypothesis =>
      obtain ⟨k, v⟩ := entry
      simp only [List.map_cons, List.mem_cons, not_or] at new
      have other : k ≠ key := fun same => new.1 same.symm
      rw [insertInto, if_neg other, inductionHypothesis new.2, List.cons_append]

/-- Pairs with new keys of their own are appended in order. -/
theorem insertMany_of_nodup {table : Roster κ ν} {pairs : List (κ × ν)}
    (distinct : (table.keys ++ pairs.map (·.1)).Nodup) :
    table.insertMany pairs = ⟨table.entries ++ pairs⟩ := by
  induction pairs generalizing table with
  | nil => simp [insertMany]
  | cons pair rest inductionHypothesis =>
      obtain ⟨key, value⟩ := pair
      have new : key ∉ table.entries.map (·.1) := by
        intro member
        exact (List.nodup_append.mp distinct).2.2 key member key (by simp) rfl
      have entered : table.insert key value = ⟨table.entries ++ [(key, value)]⟩ := by
        rw [insert, insertInto_of_notMem new]
      have remaining : ((table.insert key value).keys ++ rest.map (·.1)).Nodup := by
        rw [entered]
        simpa [keys] using distinct
      have continued := inductionHypothesis remaining
      rw [entered] at continued
      change (table.insert key value).insertMany rest = _
      rw [entered, continued]
      simp

/-- The table of pairs with keys of their own has just these entries. -/
theorem ofList_of_nodup {pairs : List (κ × ν)} (distinct : (pairs.map (·.1)).Nodup) :
    ofList pairs = ⟨pairs⟩ := by
  have entered : (empty : Roster κ ν).insertMany pairs = ⟨empty.entries ++ pairs⟩ :=
    insertMany_of_nodup (by simpa [keys, empty] using distinct)
  simpa [ofList, empty] using entered

/-- Tables without a key in common are put one after the other. -/
theorem override_of_nodup {table upper : Roster κ ν} (distinct : (table.keys ++ upper.keys).Nodup) :
    table.override upper = ⟨table.entries ++ upper.entries⟩ :=
  insertMany_of_nodup distinct

/-- An entry is found under its key when no other entry has that key. -/
theorem get?_of_mem {table : Roster κ ν} {key : κ} {value : ν} (distinct : table.keys.Nodup)
    (member : (key, value) ∈ table.entries) : table.get? key = some value := by
  obtain ⟨before, after, split⟩ := List.append_of_mem member
  rw [get?, List.lookup_eq_some_iff]
  refine ⟨before, after, split, ?_⟩
  intro entry earlier
  rw [keys, split, List.map_append, List.nodup_append] at distinct
  have different := distinct.2.2 entry.1 (List.mem_map_of_mem earlier) key (by simp)
  exact bne_iff_ne.mpr different.symm

end CarrySave.Roster
