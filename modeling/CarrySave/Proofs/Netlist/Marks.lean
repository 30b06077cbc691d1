/-
Module: CarrySave.Proofs.Netlist.Marks
Layer: Proofs
Purpose: Marks in listings.  A listing is read line by line: none of its lines has a line break in it,
  and what stands in a line besides a mark has no arrow in it.  So if the outputs are distinct wires,
  each has its mark, the number of which can be told from the line, and it stands on the line of its
  wire and on no other.
Main exports: Text.Plain, Text.toString_injective, Netlist.Plain, Netlist.mark, Netlist.marksOf,
  Netlist.markOf_eq_some_iff, Netlist.listingLines, Netlist.listing_eq_ok_iff, Netlist.Marks,
  Netlist.listing_marks
-/
import CarrySave.Netlist.Listing
import CarrySave.Proofs.Netlist.Growth
import Mathlib.Data.List.Basic

namespace CarrySave

namespace Text

/-! ### Texts without arrows -/

/-- A text of one line in which there is no arrow. -/
def Plain (text : String) : Prop :=
  '>' ∉ text.toList ∧ '\n' ∉ text.toList

instance (text : String) : Decidable (Plain text) :=
  inferInstanceAs (Decidable (_ ∧ _))

theorem plain_append {text more : String} (first : Plain text) (second : Plain more) :
    Plain (text ++ more) := by
  simp only [Plain, String.toList_append, List.mem_append, not_or] at first second ⊢
  exact ⟨⟨first.1, second.1⟩, first.2, second.2⟩

theorem plain_toString (n : Nat) : Plain (toString n) := by
  have digits : ∀ c ∈ (toString n).toList, c.isDigit = true := by
    intro c member
    rw [Nat.toString_eq_repr, Nat.toList_repr] at member
    exact Nat.isDigit_of_mem_toDigits (b := 10) (by decide) (by decide) member
  constructor
  · intro arrow
    cases digits _ arrow
  · intro newline
    cases digits _ newline

/-- A number can be told from its numeral. -/
theorem toString_injective : Function.Injective (toString : Nat → String) := by
  intro n m same
  rw [Nat.toString_eq_repr, Nat.toString_eq_repr] at same
  have digits := congrArg String.toList same
  rw [Nat.toList_repr, Nat.toList_repr] at digits
  simpa using congrArg (Nat.ofDigitChars 10 · 0) digits

theorem plain_alignLeft {width : Nat} {text : String} (plain : Plain text) :
    Plain (alignLeft width text) := by
  refine plain_append plain ?_
  simp [Plain, ruled]

theorem plain_alignRight {width : Nat} {text : String} (plain : Plain text) :
    Plain (alignRight width text) := by
  refine plain_append ?_ plain
  simp [Plain, ruled]

end Text

namespace Netlist

open Text

/-- A netlist whose name and labels are plain. -/
structure Plain (nl : Netlist) : Prop where
  name : Text.Plain nl.name
  labels : ∀ (wire : Nat) (label : String), nl.gates[wire]? = some (.input label) → Text.Plain label

/-! ### Lines and marks -/

/-- The mark of the output at a position. -/
def mark (place : Nat) : String :=
  s!"  -> out{place}"

/-- A line is the line of an unmarked wire with the mark of the wire after it. -/
theorem gateLine_eq (column : Nat) (marks : List (Int × Nat)) (wire : Nat) (gate : Gate) :
    gateLine column marks wire gate =
      gateLine column [] wire gate ++ ((markOf marks wire).map mark).getD "" := by
  have unmarked : markOf [] wire = none := rfl
  rw [gateLine, gateLine, unmarked]
  cases markOf marks wire with
  | none => simp
  | some place => simp [mark]

theorem plain_gateText {gate : Gate} (labels : ∀ label, gate = .input label → Text.Plain label) :
    Text.Plain (gateText gate) := by
  have space : Text.Plain (toString " ") := by decide
  cases gate with
  | input label =>
      exact plain_append (plain_alignLeft (by decide)) (plain_append space (labels label rfl))
  | buffer source =>
      exact plain_append (plain_alignLeft (by decide)) (plain_append space (plain_toString source))
  | logic op a b =>
      refine plain_append (plain_alignLeft (by cases op <;> decide)) ?_
      exact plain_append (plain_append (plain_append space (plain_toString a)) space)
        (plain_toString b)

/-- What stands in a line besides a mark is plain. -/
theorem plain_gateLine {column wire : Nat} {gate : Gate}
    (labels : ∀ label, gate = .input label → Text.Plain label) :
    Text.Plain (gateLine column [] wire gate) := by
  have unmarked : markOf [] wire = none := rfl
  rw [gateLine, unmarked, String.append_empty]
  exact plain_append (plain_append (plain_alignRight (plain_toString wire)) (by decide))
    (plain_gateText labels)

theorem toList_mark (place : Nat) :
    (mark place).toList = "  -".toList ++ '>' :: (" out".toList ++ (toString place).toList) := by
  have text : mark place = "  -> out" ++ toString place := rfl
  rw [text, String.toList_append]
  rfl

theorem newline_notMem_mark (place : Nat) : '\n' ∉ (mark place).toList := by
  have digits := (plain_toString place).2
  simp only [toList_mark, List.mem_append, List.mem_cons, not_or]
  exact ⟨by decide, by decide, by decide, digits⟩

/-- The only arrow of a mark is in front of its number, so the number can be told from a line that ends
in the mark. -/
theorem mark_eq_of_append {start text : String} {i k : Nat} (plain : Text.Plain text)
    (same : text ++ mark k = start ++ mark i) : k = i := by
  have chars := congrArg String.toList same
  simp only [String.toList_append, toList_mark, ← List.append_assoc (_ : String).toList] at chars
  have before : '>' ∉ text.toList ++ "  -".toList := by
    rw [List.mem_append, not_or]
    exact ⟨plain.1, by decide⟩
  have after : '>' ∉ " out".toList ++ (toString k).toList := by
    rw [List.mem_append, not_or]
    exact ⟨by decide, (plain_toString k).1⟩
  obtain ⟨-, -, numbers⟩ := (List.append_cons_inj_of_notMem before after).mp chars
  exact toString_injective (String.toList_injective (List.append_cancel_left numbers))

/-- A line without an arrow does not end in a mark. -/
theorem append_mark_ne {start text : String} {i : Nat} (plain : Text.Plain text) :
    text ≠ start ++ mark i := by
  rintro rfl
  apply plain.1
  rw [String.toList_append, toList_mark]
  simp

/-! ### Which wires are marked -/

/-- Some wires with their positions, the last one first. -/
def marksOf (outputs : List Nat) : List (Int × Nat) :=
  (outputs.zipIdx.map fun (wire, place) => ((wire : Int), place)).reverse

/-- Integers are never refused as outputs, whether there are such wires or not. -/
theorem outputMarks_integers (outputs : List Int) :
    outputMarks (outputs.map .int) = .ok outputs.zipIdx.reverse := by
  have keys : ∀ output : Int × Nat,
      (do let key ← (Datum.int output.1).key; pure (key.map fun wire => (wire, output.2))) =
        (pure (some output) : Except Error (Option (Int × Nat))) := by
    intro output
    rfl
  rw [outputMarks, List.zipIdx_map, List.mapM_map]
  simp only [Function.comp_def, Prod.map, id, keys, List.mapM_pure]
  simp [List.filterMap_map, pure, Except.pure, bind, Except.bind]

theorem outputMarks_wires (outputs : List Nat) :
    outputMarks (outputs.map .wire) = .ok (marksOf outputs) := by
  have integers : outputs.map Datum.wire = (outputs.map Nat.cast).map .int := by
    rw [List.map_map]
    rfl
  rw [integers, outputMarks_integers, List.zipIdx_map, marksOf]
  rfl

/-- When the outputs are distinct, a wire is marked with its position among them. -/
theorem markOf_eq_some_iff {outputs : List Nat} (distinct : outputs.Nodup) {wire place : Nat} :
    markOf (marksOf outputs) wire = some place ↔ outputs[place]? = some wire := by
  have member : ∀ {place : Nat},
      ((wire : Int), place) ∈ marksOf outputs ↔ outputs[place]? = some wire := by
    intro place
    rw [marksOf, List.mem_reverse, List.mem_map]
    constructor
    · rintro ⟨⟨other, _⟩, listed, same⟩
      obtain ⟨sameWire, rfl⟩ := Prod.mk.inj same
      obtain rfl := Int.ofNat.inj sameWire
      exact List.mem_zipIdx_iff_getElem?.mp listed
    · intro output
      exact ⟨(wire, place), List.mem_zipIdx_iff_getElem?.mpr output, rfl⟩
  have sound : ∀ {place : Nat},
      markOf (marksOf outputs) wire = some place → outputs[place]? = some wire := by
    intro place found
    obtain ⟨before, after, split, -⟩ := List.lookup_eq_some_iff.mp found
    rw [← member, split]
    simp
  refine ⟨sound, ?_⟩
  intro output
  cases found : markOf (marksOf outputs) wire with
  | none =>
      have missing := List.lookup_eq_none_iff.mp found _ (member.mpr output)
      simp at missing
  | some other =>
      have below : place < outputs.length := (List.getElem?_eq_some_iff.mp output).1
      rw [(List.getElem?_inj below distinct).mp (output.trans (sound found).symm)]

/-! ### Listings with marks -/

/-- The lines of a listing: a title, and a line for each wire. -/
def listingLines (nl : Netlist) (marks : List (Int × Nat)) : List String :=
  s!"# {nl.name}: {nl.size} gates" :: nl.gates.toList.zipIdx.map fun (gate, wire) =>
    gateLine (toString (nl.size - 1)).length marks wire gate

theorem markedListing_eq (nl : Netlist) (marks : List (Int × Nat)) :
    nl.markedListing marks = "\n".intercalate (nl.listingLines marks) := rfl

/-- Whether there is a listing depends on the chosen outputs alone. -/
theorem listing_eq_ok_iff {nl : Netlist} {outputs : List Datum} {text : String} :
    nl.listing outputs = .ok text ↔
      ∃ marks, outputMarks outputs = .ok marks ∧ nl.markedListing marks = text := by
  rw [listing]
  cases outputMarks outputs with
  | error error => simp [bind, Except.bind]
  | ok marks => simp [bind, Except.bind, pure, Except.pure]

theorem length_listingLines (nl : Netlist) (marks : List (Int × Nat)) :
    (nl.listingLines marks).length = nl.size + 1 := by
  simp [listingLines, size]

theorem getElem?_listingLines (nl : Netlist) (marks : List (Int × Nat)) (wire : Nat) :
    (nl.listingLines marks)[wire + 1]? =
      nl.gates[wire]?.map (gateLine (toString (nl.size - 1)).length marks wire) := by
  simp [listingLines, Function.comp_def]

/-- The lines of a netlist with marks: a title and a line for each wire, which tells its gate.  Each
output has its mark at the end of the line of its wire, and no other line ends in that mark. -/
structure Marks (nl : Netlist) (outputs : List Nat) (lines : List String) : Prop where
  length_eq : lines.length = nl.size + 1
  whole : ∀ line ∈ lines, '\n' ∉ line.toList
  shown : ∀ (i wire : Nat), outputs[i]? = some wire →
    ∃ gate, nl.gates[wire]? = some gate ∧
      lines[wire + 1]? =
        some (gateLine (toString (nl.size - 1)).length [] wire gate ++ mark i)
  alone : ∀ (i place : Nat) (start : String), lines[place]? = some (start ++ mark i) →
    ∃ wire, outputs[i]? = some wire ∧ place = wire + 1

/-- The listing of a plain netlist with distinct outputs shows the mark of each on the line of its wire
and on no other. -/
theorem listing_marks {nl : Netlist} {outputs : List Nat} (plain : nl.Plain)
    (distinct : outputs.Nodup) (has : ∀ wire ∈ outputs, wire < nl.size) :
    ∃ lines, nl.listing (outputs.map .wire) = .ok ("\n".intercalate lines) ∧
      nl.Marks outputs lines := by
  let marks := marksOf outputs
  have titlePlain : Text.Plain s!"# {nl.name}: {nl.size} gates" :=
    plain_append (plain_append (plain_append (plain_append (by decide) plain.name) (by decide))
      (plain_toString nl.size)) (by decide)
  have gatePlain : ∀ {column wire : Nat} {gate : Gate}, nl.gates[wire]? = some gate →
      Text.Plain (gateLine column [] wire gate) := by
    rintro column wire gate found
    apply plain_gateLine
    rintro label rfl
    exact plain.labels wire label found
  have lineAt := nl.getElem?_listingLines marks
  refine ⟨nl.listingLines marks, ?_, nl.length_listingLines marks, ?_, ?_, ?_⟩
  · exact listing_eq_ok_iff.mpr ⟨marks, outputMarks_wires outputs, nl.markedListing_eq marks⟩
  · intro text member
    obtain ⟨place, listed⟩ := List.mem_iff_getElem?.mp member
    cases place with
    | zero => exact Option.some.inj listed ▸ titlePlain.2
    | succ wire =>
        rw [lineAt, Option.map_eq_some_iff] at listed
        obtain ⟨gate, found, rfl⟩ := listed
        rw [gateLine_eq, String.toList_append, List.mem_append, not_or]
        refine ⟨(gatePlain found).2, ?_⟩
        cases markOf marks wire with
        | none => simp
        | some i => exact newline_notMem_mark i
  · intro i wire output
    have below : wire < nl.gates.size := has wire (List.mem_of_getElem? output)
    have found := Array.getElem?_eq_getElem below
    refine ⟨_, found, ?_⟩
    rw [lineAt, found, Option.map_some, gateLine_eq, (markOf_eq_some_iff distinct).mpr output]
    rfl
  · intro i place start found
    cases place with
    | zero => exact absurd (Option.some.inj found) (append_mark_ne titlePlain)
    | succ wire =>
        rw [lineAt, Option.map_eq_some_iff] at found
        obtain ⟨gate, built, same⟩ := found
        rw [gateLine_eq] at same
        cases marked : markOf marks wire with
        | none =>
            rw [marked] at same
            exact absurd same (by simpa using append_mark_ne (gatePlain built))
        | some k =>
            rw [marked] at same
            obtain rfl := mark_eq_of_append (gatePlain built) same
            exact ⟨wire, (markOf_eq_some_iff distinct).mp marked, rfl⟩

end Netlist

end CarrySave
