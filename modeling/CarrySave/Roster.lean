/-
Module: CarrySave.Roster
Layer: Data
Purpose: Tables in the order in which their keys were first entered.  Entering a key again
  replaces its value and keeps its place.
Main exports: Roster, Roster.get?, Roster.insert, Roster.ofList, Roster.override
-/
namespace CarrySave

/-- A table of entries in order of first entry. -/
structure Roster (κ : Type) (ν : Type) where
  entries : List (κ × ν) := []
deriving Repr

namespace Roster

variable {κ ν : Type}

/-- The table without entries. -/
def empty : Roster κ ν := {}

instance : Inhabited (Roster κ ν) := ⟨empty⟩

/-- The keys in order. -/
def keys (table : Roster κ ν) : List κ :=
  table.entries.map (·.1)

/-- The values in order of their keys. -/
def values (table : Roster κ ν) : List ν :=
  table.entries.map (·.2)

/-- Apply a function to every value. -/
def mapValues {μ : Type} (f : ν → μ) (table : Roster κ ν) : Roster κ μ :=
  ⟨table.entries.map fun (k, v) => (k, f v)⟩

variable [DecidableEq κ]

/-- The value under a key. -/
def get? (table : Roster κ ν) (key : κ) : Option ν :=
  table.entries.lookup key

/-- Entries with a value set in place, or at the end for a new key. -/
def insertInto (key : κ) (value : ν) : List (κ × ν) → List (κ × ν)
  | [] => [(key, value)]
  | (k, v) :: rest =>
      if k = key then (k, value) :: rest else (k, v) :: insertInto key value rest

/-- Set the value under a key. -/
def insert (table : Roster κ ν) (key : κ) (value : ν) : Roster κ ν :=
  ⟨insertInto key value table.entries⟩

/-- Enter all pairs of a list into a table, in order. -/
def insertMany (table : Roster κ ν) (pairs : List (κ × ν)) : Roster κ ν :=
  pairs.foldl (fun acc (k, v) => acc.insert k v) table

/-- The table that a list of pairs gives when entered in order. -/
def ofList (pairs : List (κ × ν)) : Roster κ ν :=
  empty.insertMany pairs

/-- Enter all of a second table on top of a first. -/
def override (table upper : Roster κ ν) : Roster κ ν :=
  table.insertMany upper.entries

/-- Looking up a key just entered gives its value; any other key is untouched. -/
theorem lookup_insertInto (key other : κ) (value : ν) (entries : List (κ × ν)) :
    (insertInto key value entries).lookup other =
      if other = key then some value else entries.lookup other := by
  induction entries with
  | nil =>
      by_cases h : other = key
      · simp [insertInto, h]
      · simp [insertInto, List.lookup_cons, h, beq_eq_false_iff_ne.2 h]
  | cons entry rest ih =>
      obtain ⟨k, v⟩ := entry
      by_cases hk : k = key
      · subst hk
        by_cases h : other = k
        · simp [insertInto, h]
        · simp [insertInto, List.lookup_cons, h, beq_eq_false_iff_ne.2 h]
      · by_cases h : other = k
        · subst h
          simp [insertInto, hk]
        · simp only [insertInto, hk, if_false, List.lookup_cons, beq_eq_false_iff_ne.2 h, ih]

theorem get?_insert (table : Roster κ ν) (key other : κ) (value : ν) :
    (table.insert key value).get? other = if other = key then some value else table.get? other :=
  lookup_insertInto key other value table.entries

end Roster

end CarrySave
