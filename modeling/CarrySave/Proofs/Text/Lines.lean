/-
Module: CarrySave.Proofs.Text.Lines
Layer: Proofs
Purpose: Texts of one line.  Numerals are such texts, and trimming a text, putting it in small letters
  and putting it between quotes make no line break: capitals have small letters that lie above all
  controls, and a line break is written by an escape.  Lines that are joined can be told apart again.
Main exports: Text.OneLine, Text.oneLine_append, Text.oneLine_toString, Text.oneLine_trim,
  Text.intercalate_inj, Text.oneLine_lowercase, Text.oneLine_quoted
-/
import CarrySave.Proofs.Netlist.Marks
import CarrySave.Text.Blank
import CarrySave.Text.Lowercase
import CarrySave.Text.Quoted

namespace CarrySave.Text

/-- A text without a line break. -/
def OneLine (text : String) : Prop :=
  '\n' ∉ text.toList

instance (text : String) : Decidable (OneLine text) :=
  inferInstanceAs (Decidable (_ ∉ _))

theorem oneLine_append {text more : String} (first : OneLine text) (second : OneLine more) :
    OneLine (text ++ more) := by
  rw [OneLine, String.toList_append, List.mem_append]
  exact not_or.mpr ⟨first, second⟩

/-- A selection of the characters of one line is one line. -/
theorem OneLine.of_subset {text : String} {chars : List Char} (whole : OneLine text)
    (subset : chars ⊆ text.toList) : OneLine (String.ofList chars) := by
  rw [OneLine, String.toList_ofList]
  exact fun member => whole (subset member)

theorem oneLine_toString (number : Int) : OneLine (toString number) := by
  rw [Int.toString_eq_repr]
  cases number with
  | ofNat magnitude => exact (plain_toString magnitude).2
  | negSucc magnitude => exact oneLine_append (by decide) (plain_toString (magnitude + 1)).2

theorem oneLine_trim {text : String} (line : OneLine text) : OneLine (trim text) := by
  apply line.of_subset
  refine List.Subset.trans (List.reverse_subset.mpr (List.dropWhile_sublist _).subset) ?_
  exact List.Subset.trans (List.reverse_subset.mpr (List.Subset.refl _))
    (List.dropWhile_sublist _).subset

/-! ### Joined lines -/

/-- A text that joins some lines by line breaks is split into them again. -/
theorem splitOn_intercalate {lines : List String} (whole : ∀ line ∈ lines, OneLine line)
    (nonempty : lines ≠ []) :
    ("\n".intercalate lines).toList.splitOn '\n' = lines.map String.toList := by
  rw [String.toList_intercalate]
  refine List.splitOn_intercalate '\n' ?_ (mt List.map_eq_nil_iff.mp nonempty)
  exact List.forall_mem_map.mpr whole

/-- Lines can be told from the text that joins them. -/
theorem intercalate_inj {lines others : List String} (whole : ∀ line ∈ lines, OneLine line)
    (wholeOthers : ∀ line ∈ others, OneLine line) (nonempty : lines ≠ [])
    (nonemptyOthers : others ≠ []) :
    "\n".intercalate lines = "\n".intercalate others ↔ lines = others := by
  refine ⟨?_, congrArg _⟩
  intro same
  have pieces := congrArg (fun text => text.toList.splitOn '\n') same
  simp only [splitOn_intercalate whole nonempty,
    splitOn_intercalate wholeOthers nonemptyOthers] at pieces
  exact List.map_injective_iff.mpr (fun _ _ => String.toList_injective) pieces

/-! ### Small letters -/

/-- Every small letter in the tables lies above the line break. -/
theorem newline_lt_lowerRuns : ∀ run ∈ lowerRuns.toList, 10 < (run.first : Int) + run.offset := by
  decide +kernel

/-- The character of a code point other than that of the line break is not the line break. -/
theorem ofNat_ne_newline {code : Nat} (other : code ≠ 10) : Char.ofNat code ≠ '\n' := by
  intro same
  have codes := congrArg Char.toNat same
  by_cases valid : code.isValidChar
  · rw [Char.ofNat, dif_pos valid] at codes
    exact other codes
  · rw [Char.ofNat, dif_neg valid] at codes
    cases codes

theorem lowerChar_ne_newline {c : Char} (other : c ≠ '\n') : lowerChar c ≠ '\n' := by
  have above := newline_lt_lowerRuns
  unfold lowerChar
  -- The table is long, and nothing but its least small letter matters.
  generalize lowerRuns = runs at above ⊢
  simp only
  split
  · rename_i run found
    apply ofNat_ne_newline
    have covered := Array.find?_some found
    have listed : run ∈ runs := Array.mem_of_find?_eq_some found
    have high := above run listed.val
    simp only [Bool.and_eq_true, decide_eq_true_eq] at covered
    omega
  · exact other

theorem newline_notMem_lowercaseFrom {before chars : List Char} (line : '\n' ∉ chars) :
    '\n' ∉ lowercaseFrom before chars := by
  induction chars generalizing before with
  | nil => simp [lowercaseFrom]
  | cons c rest inductionHypothesis =>
      obtain ⟨other, later⟩ := List.ne_and_not_mem_of_not_mem_cons line
      simp only [lowercaseFrom, List.mem_append, not_or]
      refine ⟨?_, inductionHypothesis later⟩
      split
      · split <;> decide
      · split
        · decide
        · exact mt List.mem_singleton.mp (lowerChar_ne_newline other.symm).symm

theorem oneLine_lowercase {text : String} (line : OneLine text) : OneLine (lowercase text) := by
  rw [OneLine, lowercase, String.toList_ofList]
  exact newline_notMem_lowercaseFrom line

/-! ### Quotes -/

theorem digitChar_ne_newline : ∀ digit < 16, digit.digitChar ≠ '\n' := by
  decide

theorem newline_notMem_toDigits (number : Nat) : '\n' ∉ Nat.toDigits 16 number := by
  induction number using Nat.strongRecOn with
  | _ number inductionHypothesis =>
      rw [Nat.toDigits_eq_if (by decide)]
      split
      · rename_i small
        exact mt List.mem_singleton.mp (digitChar_ne_newline number small).symm
      · rename_i large
        rw [List.mem_append, List.mem_singleton, not_or]
        exact ⟨inductionHypothesis _ (by omega),
          (digitChar_ne_newline _ (Nat.mod_lt _ (by decide))).symm⟩

theorem newline_notMem_hexadecimal (places number : Nat) : '\n' ∉ hexadecimal places number := by
  simp only [hexadecimal, List.mem_append, not_or]
  refine ⟨?_, newline_notMem_toDigits number⟩
  intro member
  cases List.eq_of_mem_replicate member

/-- No character is spelled with a line break between quotes. -/
theorem newline_notMem_escapeChar {quote : Char} (noBreak : quote ≠ '\n') (c : Char) :
    '\n' ∉ escapeChar quote c := by
  unfold escapeChar
  split
  case isTrue special =>
    have other : c ≠ '\n' := by
      rintro rfl
      simp [noBreak.symm] at special
    simp [other.symm]
  case isFalse =>
    split
    case isTrue => decide
    case isFalse other =>
      have hexadecimals := newline_notMem_hexadecimal
      repeat' split
      all_goals simp [Ne.symm other, hexadecimals]

theorem chooseQuote_ne_newline (chars : List Char) : chooseQuote chars ≠ '\n' := by
  unfold chooseQuote
  split <;> decide

/-- A text between quotes is one line, whatever it is. -/
theorem oneLine_quoted (text : String) : OneLine (quoted text) := by
  have quote := chooseQuote_ne_newline text.toList
  simp only [OneLine, quoted, String.toList_ofList, List.cons_append, List.mem_cons, List.mem_append,
    List.mem_flatMap, List.not_mem_nil, or_false, not_or, not_exists, not_and]
  exact ⟨quote.symm, fun c _ => newline_notMem_escapeChar quote c, quote.symm⟩

end CarrySave.Text
