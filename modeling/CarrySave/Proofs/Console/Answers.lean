/-
Module: CarrySave.Proofs.Console.Answers
Layer: Proofs
Purpose: What the menu answers when a circuit was typed.  There is a page unless the kind or the width
  is no good: nobody knows the kind, the width is no integer, it is negative, or it gives too many
  inputs to check.  Each of these is what the task fails with, a bad request that is put in a message
  of one line.
Main exports: Menu.Refusal, Menu.carryOut_eq_error_iff, Menu.granted_carryOut, Menu.Refusal.cls_eq,
  Menu.Refusal.oneLine
-/
import CarrySave.Proofs.Console.Tour
import CarrySave.Proofs.Text.Lines

namespace CarrySave

/-! ### Messages -/

namespace Error

open Text

/-- A complaint about the length of an integer is one line if the remark on it is. -/
theorem oneLine_digitLimit {remark : String} (line : OneLine remark) :
    OneLine (digitLimit remark) := by
  have limit : OneLine (toString Decimal.maxDigits) := (plain_toString Decimal.maxDigits).2
  exact oneLine_append (oneLine_append (oneLine_append (oneLine_append (by decide) limit)
    (by decide)) line) (by decide)

/-- A message is one line if its wording is. -/
theorem oneLine_message {error : Error} (line : OneLine error.wording) : OneLine error.message := by
  rw [message]
  split
  · exact line
  · exact oneLine_digitLimit (by decide)

end Error

/-- How a text that is no integer is complained about. -/
theorem Error.message_notAnInteger (text : String) :
    (Error.notAnInteger text).message = "invalid literal for int() with base 10: " ++
      String.ofList ((Text.quoted text).toList.take maxQuoted) :=
  if_pos rfl

theorem Design.oneLine_requestName (design : Design) : Text.OneLine design.requestName := by
  have number := Text.oneLine_toString
  cases design with
  | adder width => exact Text.oneLine_append (by decide) (number width)
  | popcount width => exact Text.oneLine_append (by decide) (number width)
  | multiplier widthA widthB => exact Text.oneLine_append (by decide) (number widthA)

namespace Menu

open Text

/-! ### Refusals -/

/-- Why a task on a circuit that was typed is refused: its width is no integer or has too many digits,
its kind is unknown, its width is negative, or it has too many inputs to be checked. -/
inductive Refusal (task : Task) (kind line : String) : Error → Prop where
  | notAnInteger (unread : Decimal.readInteger (trim line) = .error .malformed) :
      Refusal task kind line (.notAnInteger (trim line))
  | tooManyDigits {count : Nat}
      (unread : Decimal.readInteger (trim line) = .error (.tooManyDigits count)) :
      Refusal task kind line (.tooManyDigits count)
  | unknown {width : Int} (read : Decimal.readInteger (trim line) = .ok width)
      (unknown : kind ∉ Design.kinds) : Refusal task kind line (.unknownCircuit kind)
  | negative {width : Int} (read : Decimal.readInteger (trim line) = .ok width)
      (known : kind ∈ Design.kinds) (negative : width < 0) :
      Refusal task kind line (.negativeInputs (.int width))
  | tooMany {width : Int} {design : Design} (read : Decimal.readInteger (trim line) = .ok width)
      (known : Design.ofKind kind width = .ok design) (verifies : task = .verification)
      (many : 24 < design.inputBits) :
      Refusal task kind line (.tooManyToCheck design.requestName design.inputBits)

section Tasks

variable {task : Task} {kind line : String} {error : Error}

/-- The page that a task makes for a circuit. -/
def Task.page : Task → String → Int → Except Error String
  | .report => reportPage
  | .verification => verificationPage

/-- A width that can be read is the width of the circuit. -/
theorem carryOut_of_read {width : Int} (read : Decimal.readInteger (trim line) = .ok width) :
    carryOut task kind line = task.page kind width := by
  cases task <;> simp only [carryOut, readWidth, read, Task.page, bind, Except.bind]

theorem Task.page_of_notMem (unknown : kind ∉ Design.kinds) (width : Int) :
    task.page kind width = .error (.unknownCircuit kind) := by
  have unmade := Design.ofKind_of_notMem unknown width
  cases task with
  | report => exact bind_of_error unmade _
  | verification => exact bind_of_error unmade _

/-- A negative width is refused when the circuit is built, which it is before it is checked. -/
theorem Task.page_of_negative {width : Int} (known : kind ∈ Design.kinds) (negative : width < 0) :
    task.page kind width = .error (.negativeInputs (.int width)) := by
  obtain ⟨design, ordered⟩ := Design.ofKind_of_mem known width
  have unmade := Design.synthesize_of_negative ordered negative
  cases task with
  | report => exact (bind_of_ok ordered _).trans (bind_of_error unmade _)
  | verification =>
      have few : design.inputBits ≤ 24 :=
        (Design.inputBits_of_negative ordered negative).le.trans (by decide)
      have unchecked := Design.verify_of_unmade few unmade
      exact (bind_of_ok ordered _).trans (bind_of_error unchecked _)

/-- Each refusal is what the task fails with. -/
theorem Refusal.carryOut_eq (refusal : Refusal task kind line error) :
    carryOut task kind line = .error error := by
  cases refusal with
  | notAnInteger unread => simp only [carryOut, readWidth, unread, bind, Except.bind]
  | tooManyDigits unread => simp only [carryOut, readWidth, unread, bind, Except.bind]
  | unknown read unknown => exact (carryOut_of_read read).trans (Task.page_of_notMem unknown _)
  | negative read known negative =>
      exact (carryOut_of_read read).trans (Task.page_of_negative known negative)
  | tooMany read known verifies many =>
      have unchecked := Design.verify_of_many many
      rw [carryOut_of_read read, verifies]
      exact (bind_of_ok known _).trans (bind_of_error unchecked _)

/-- Whatever is typed, the task is carried out or there is a reason to refuse it. -/
theorem granted_or_refusal (task : Task) (kind line : String) :
    Granted (carryOut task kind line) ∨ ∃ error, Refusal task kind line error := by
  cases read : Decimal.readInteger (trim line) with
  | error fault =>
      cases fault with
      | malformed => exact .inr ⟨_, .notAnInteger read⟩
      | tooManyDigits count => exact .inr ⟨_, .tooManyDigits read⟩
  | ok width =>
      rw [carryOut_of_read read]
      by_cases known : kind ∈ Design.kinds
      case neg => exact .inr ⟨_, .unknown read known⟩
      case pos =>
        obtain ⟨design, ordered⟩ := Design.ofKind_of_mem known width
        have refusal : ∀ {error : Error}, design.synthesize = .error error →
            ∃ error, Refusal task kind line error :=
          fun unmade => ⟨_, .negative read known (Design.negative_of_unmade ordered unmade)⟩
        cases task with
        | report =>
            cases made : design.synthesize with
            | error error => exact .inr (refusal made)
            | ok circuit => exact .inl (granted_reportPage ordered made)
        | verification =>
            rcases design.verify_cases with checked | many | ⟨error, unmade⟩
            · exact .inl (granted_verificationPage ordered checked)
            · exact .inr ⟨_, .tooMany read ordered rfl many⟩
            · exact .inr (refusal unmade)

/-- A task fails exactly when there is a reason to refuse it, and with that reason. -/
theorem carryOut_eq_error_iff :
    carryOut task kind line = .error error ↔ Refusal task kind line error := by
  refine ⟨fun failed => ?_, Refusal.carryOut_eq⟩
  rcases granted_or_refusal task kind line with ⟨text, carried⟩ | ⟨reason, refusal⟩
  · cases carried.symm.trans failed
  · cases refusal.carryOut_eq.symm.trans failed
    exact refusal

/-- A task that there is no reason to refuse is carried out. -/
theorem granted_carryOut (never : ∀ error, ¬Refusal task kind line error) :
    Granted (carryOut task kind line) :=
  (granted_or_refusal task kind line).resolve_right (not_exists.mpr never)

namespace Refusal

/-- Every refusal is a bad request. -/
theorem cls_eq (refusal : Refusal task kind line error) : error.cls = .badRequest := by
  cases refusal <;> rfl

/-- Every refusal is put in one line if the kind was. -/
theorem oneLine (refusal : Refusal task kind line error) (typed : OneLine kind) :
    OneLine error.message := by
  apply Error.oneLine_message
  have natural : ∀ number : Nat, OneLine (toString number) := fun number => (plain_toString number).2
  cases refusal with
  | notAnInteger _ =>
      exact oneLine_append (by decide)
        ((oneLine_quoted (trim line)).of_subset (List.take_subset _ _))
  | tooManyDigits _ =>
      exact Error.oneLine_digitLimit (oneLine_append (oneLine_append (by decide) (natural _))
        (by decide))
  | unknown _ _ => exact oneLine_append (oneLine_append (by decide) typed) (by decide)
  | negative _ _ _ => exact oneLine_append (by decide) (oneLine_toString _)
  | @tooMany _ design _ _ _ _ =>
      exact oneLine_append (oneLine_append (oneLine_append
        (oneLine_append design.oneLine_requestName (by decide)) (oneLine_toString _))
        (by decide)) (natural _)

end Refusal

end Tasks

end Menu

end CarrySave
