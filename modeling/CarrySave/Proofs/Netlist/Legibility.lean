/-
Module: CarrySave.Proofs.Netlist.Legibility
Layer: Proofs
Purpose: A listing tells its netlist.  Labels and names may look like a mark, a gate or the end of a
  title, as long as there is no line break in them.  The number of lines tells the size, which is all
  that is needed to tell the name from the title.  In two listings of one size a wire is numbered and
  marked alike, so what is left of its line is the text of its gate, and the word that fills the first
  column of that text tells what follows it.
Main exports: Netlist.gateText_injective, Netlist.gateLine_injective, Netlist.OneLine,
  Netlist.OneLine.listingLines, Netlist.listingLines_inj, Netlist.markedListing_inj,
  Netlist.listing_tells_netlist
-/
import CarrySave.Proofs.Text.Lines
import Mathlib.Data.List.Nodup

namespace CarrySave

namespace Text

/-- Two texts that begin with equally long parts are told apart by their parts. -/
theorem append_inj_of_length {start rest other otherRest : String}
    (long : start.length = other.length) (same : start ++ rest = other ++ otherRest) :
    start = other ∧ rest = otherRest := by
  have chars := congrArg String.toList same
  rw [String.toList_append, String.toList_append] at chars
  obtain ⟨starts, rests⟩ := List.append_inj chars (by rwa [String.length_toList, String.length_toList])
  exact ⟨String.toList_injective starts, String.toList_injective rests⟩

/-- Two numbers can be told from their numerals with a space between them. -/
theorem spaced_inj {a b c d : Nat}
    (same : toString a ++ (" " ++ toString b) = toString c ++ (" " ++ toString d)) :
    a = c ∧ b = d := by
  have noSpace : ∀ n : Nat, ' ' ∉ (toString n).toList := by
    intro n space
    rw [Nat.toString_eq_repr, Nat.toList_repr] at space
    cases Nat.isDigit_of_mem_toDigits (by decide) (by decide) space
  have chars := congrArg String.toList same
  simp only [String.toList_append] at chars
  obtain ⟨first, -, second⟩ :=
    (List.append_cons_inj_of_notMem (noSpace a) (noSpace b)).mp chars
  exact ⟨toString_injective (String.toList_injective first),
    toString_injective (String.toList_injective second)⟩

end Text

namespace Netlist

open Text

/-! ### Gates -/

/-- The word that tells what kind of gate it is. -/
def gateWord : Gate → String
  | .input _ => "input"
  | .buffer _ => "buf"
  | .logic op _ _ => op.name

/-- The label or the operands of a gate. -/
def gateArguments : Gate → String
  | .input label => label
  | .buffer source => toString source
  | .logic _ a b => toString a ++ (" " ++ toString b)

theorem gateText_eq (gate : Gate) :
    gateText gate = alignLeft operationWidth (gateWord gate) ++ (" " ++ gateArguments gate) := by
  cases gate with
  | input label => rfl
  | buffer source => rfl
  | logic op a b =>
      rw [gateText, gateArguments, String.append_assoc, String.append_assoc]
      rfl

/-- The words of all kinds of gates. -/
def gateWords : List String :=
  "input" :: "buf" :: Op.all.map Op.name

theorem gateWord_mem (gate : Gate) : gateWord gate ∈ gateWords := by
  cases gate with
  | input label => exact List.mem_cons_self
  | buffer source => exact List.mem_cons_of_mem _ List.mem_cons_self
  | logic op a b => cases op <;> simp [gateWord, gateWords, Op.all]

/-- No word is longer than its column, so all of them fill it. -/
theorem length_alignLeft_gateWord :
    ∀ word ∈ gateWords, (alignLeft operationWidth word).length = operationWidth := by
  decide

/-- No two words look alike in their column. -/
theorem nodup_alignLeft_gateWords : (gateWords.map (alignLeft operationWidth)).Nodup := by
  decide

/-- The text of a gate tells the gate, whatever its label looks like. -/
theorem gateText_injective : Function.Injective gateText := by
  intro gate other same
  rw [gateText_eq, gateText_eq] at same
  have wordMem := gateWord_mem gate
  have otherMem := gateWord_mem other
  have long := (length_alignLeft_gateWord _ wordMem).trans (length_alignLeft_gateWord _ otherMem).symm
  obtain ⟨columns, spaced⟩ := append_inj_of_length long same
  have words : gateWord gate = gateWord other :=
    List.inj_on_of_nodup_map nodup_alignLeft_gateWords wordMem otherMem columns
  have arguments := (String.append_right_inj " ").mp spaced
  -- No two kinds have one word, so only gates of one kind are left to compare.
  cases gate with
  | input label =>
      cases other with
      | input otherLabel => exact congrArg Gate.input arguments
      | buffer _ => simp [gateWord] at words
      | logic op _ _ => cases op <;> simp [gateWord, Op.name] at words
  | buffer source =>
      cases other with
      | input _ => simp [gateWord] at words
      | buffer otherSource => exact congrArg Gate.buffer (toString_injective arguments)
      | logic op _ _ => cases op <;> simp [gateWord, Op.name] at words
  | logic op a b =>
      cases other with
      | input _ => cases op <;> simp [gateWord, Op.name] at words
      | buffer _ => cases op <;> simp [gateWord, Op.name] at words
      | logic otherOp c d =>
          have ops : op = otherOp := by
            cases op <;> cases otherOp <;> simp [gateWord, Op.name] at words ⊢
          obtain ⟨rfl, rfl⟩ := spaced_inj arguments
          rw [ops]

/-- The line of a wire tells its gate.  What is numbered and marked alike is told by the text between
the number and the mark, also where that text ends like a mark. -/
theorem gateLine_injective (column : Nat) (marks : List (Int × Nat)) (wire : Nat) :
    Function.Injective (gateLine column marks wire) := by
  intro gate other same
  have numbered := (String.append_left_inj _).mp same
  exact gateText_injective ((String.append_right_inj _).mp numbered)

/-! ### Lines -/

/-- A netlist whose name and labels have no line breaks. -/
structure OneLine (nl : Netlist) : Prop where
  name : Text.OneLine nl.name
  labels : ∀ (wire : Nat) (label : String), nl.gates[wire]? = some (.input label) →
    Text.OneLine label

theorem oneLine_gateText {gate : Gate}
    (labels : ∀ label, gate = .input label → Text.OneLine label) :
    Text.OneLine (gateText gate) := by
  cases gate with
  | input label => exact oneLine_append (by decide) (oneLine_append (by decide) (labels label rfl))
  | buffer source => exact (plain_gateText (by simp)).2
  | logic op a b => exact (plain_gateText (by simp)).2

theorem oneLine_gateLine {column wire : Nat} {marks : List (Int × Nat)} {gate : Gate}
    (labels : ∀ label, gate = .input label → Text.OneLine label) :
    Text.OneLine (gateLine column marks wire gate) := by
  have number : Text.OneLine (alignRight column (toString wire) ++ ": ") :=
    oneLine_append (plain_alignRight (plain_toString wire)).2 (by decide)
  refine oneLine_append (oneLine_append number (oneLine_gateText labels)) ?_
  cases markOf marks wire with
  | none => decide
  | some place => exact newline_notMem_mark place

theorem OneLine.listingLines {nl : Netlist} (single : nl.OneLine) (marks : List (Int × Nat)) :
    ∀ line ∈ nl.listingLines marks, Text.OneLine line := by
  intro line member
  obtain ⟨place, listed⟩ := List.mem_iff_getElem?.mp member
  cases place with
  | zero =>
      obtain rfl := Option.some.inj listed
      have named := oneLine_append (by decide : Text.OneLine (toString "# ")) single.name
      exact oneLine_append (oneLine_append (oneLine_append named (by decide))
        (plain_toString nl.size).2) (by decide)
  | succ wire =>
      rw [getElem?_listingLines, Option.map_eq_some_iff] at listed
      obtain ⟨gate, found, rfl⟩ := listed
      apply oneLine_gateLine
      rintro label rfl
      exact single.labels wire label found

/-! ### Listings -/

/-- The lines of a listing tell the netlist: their number tells its size, the first of them its name,
and each of the others a gate. -/
theorem listingLines_inj {one other : Netlist} {marks : List (Int × Nat)} :
    one.listingLines marks = other.listingLines marks ↔
      other.name = one.name ∧ other.gates = one.gates := by
  constructor
  · intro same
    have sizes : one.size = other.size := by
      have lengths := congrArg List.length same
      rw [length_listingLines, length_listingLines] at lengths
      exact Nat.succ.inj lengths
    constructor
    · have titles := (List.cons.inj same).1
      rw [sizes] at titles
      have numbered := (String.append_left_inj _).mp titles
      have named := (String.append_left_inj _).mp ((String.append_left_inj _).mp numbered)
      exact ((String.append_right_inj _).mp named).symm
    · apply Array.ext_getElem?
      intro wire
      have lines := congrArg (·[wire + 1]?) same
      simp only [getElem?_listingLines, sizes] at lines
      exact (Option.map_injective (gateLine_injective _ _ _) lines).symm
  · rintro ⟨names, gates⟩
    cases one
    cases other
    cases names
    cases gates
    rfl

theorem markedListing_inj {one other : Netlist} (single : one.OneLine)
    (singleOther : other.OneLine) (marks : List (Int × Nat)) :
    one.markedListing marks = other.markedListing marks ↔
      other.name = one.name ∧ other.gates = one.gates := by
  rw [markedListing_eq, markedListing_eq,
    intercalate_inj (single.listingLines marks) (singleOther.listingLines marks)
      (List.cons_ne_nil _ _) (List.cons_ne_nil _ _), listingLines_inj]

/-- A listing tells its netlist.  Integers are never refused as outputs, so there is a listing for any
number of them, for none at all in particular.  Of all netlists without line breaks in their name and
labels, those with the same listing for the same outputs have the same name and the same gates. -/
theorem listing_tells_netlist {one other : Netlist} (single : one.OneLine)
    (singleOther : other.OneLine) :
    (∀ outputs : List Int, ∃ text, one.listing (outputs.map .int) = .ok text) ∧
    ∀ (outputs : List Datum) (text : String), one.listing outputs = .ok text →
      (other.listing outputs = .ok text ↔ other.name = one.name ∧ other.gates = one.gates) := by
  constructor
  · intro outputs
    exact ⟨_, listing_eq_ok_iff.mpr ⟨_, outputMarks_integers outputs, rfl⟩⟩
  · intro outputs text listed
    obtain ⟨marks, made, rfl⟩ := listing_eq_ok_iff.mp listed
    rw [listing_eq_ok_iff, made, ← markedListing_inj single singleOther marks]
    constructor
    · rintro ⟨_, ⟨⟩, same⟩
      exact same.symm
    · intro same
      exact ⟨marks, rfl, same.symm⟩

/-- A conjunction of two inputs, the first of them with a label of choice, under a name that ends like a
title.  The second label looks like a line. -/
def posing (label : String) : Netlist where
  name := "and: 3 gates"
  gates := #[.input label, .input "1: and    0 0", .logic .and 0 1]

theorem posing_oneLine {label : String} (line : Text.OneLine label) : (posing label).OneLine := by
  refine ⟨(by decide : Text.OneLine "and: 3 gates"), ?_⟩
  intro wire text found
  have label : text = label ∨ text = "1: and    0 0" := by
    simpa [posing] using Array.mem_of_getElem? found
  rcases label with rfl | rfl
  · exact line
  · decide

/-- Only the choice of outputs tells a mark from a label that ends like one. -/
example : (posing "x").listing [.int 0] = (posing "x  -> out0").listing [] := by cbv

/-- Whatever outputs are chosen for both, a label that ends like a mark shows. -/
theorem listing_tells_netlist_posing :
    (posing "x").OneLine ∧ (posing "x  -> out0").OneLine ∧
    ∀ outputs : List Int, ∃ text, (posing "x").listing (outputs.map .int) = .ok text ∧
      (posing "x  -> out0").listing (outputs.map .int) ≠ .ok text := by
  have single : (posing "x").OneLine := posing_oneLine (by decide)
  have singleOther : (posing "x  -> out0").OneLine := posing_oneLine (by decide)
  obtain ⟨listed, told⟩ := listing_tells_netlist single singleOther
  refine ⟨single, singleOther, ?_⟩
  intro outputs
  obtain ⟨text, shown⟩ := listed outputs
  refine ⟨text, shown, ?_⟩
  rw [Ne, told _ _ shown]
  decide

end Netlist

end CarrySave
