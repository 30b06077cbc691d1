/-
Module: CarrySave.Console.Menu
Layer: Console
Purpose: The menu as a machine that is fed lines and prints text.  What it waits for is its
  state; a request that cannot be met is answered with a line and the menu goes on.
Main exports: Menu.State, Menu.opening, Menu.feed, Menu.Conversation, Menu.converse,
  Menu.linesOf, reportPage, verificationPage
-/
import CarrySave.Console.Tour
import CarrySave.Text.Blank
import CarrySave.Text.Lowercase

namespace CarrySave

open Text

/-! ### Pages on request -/

/-- The report on a circuit and its listing. -/
def reportPage (kind : String) (width : Int) : Except Error String := do
  let design ← Design.ofKind kind width
  let circuit ← design.synthesize
  let summary ← circuit.report.summary circuit.netlist
  let listing ← circuit.netlist.listing circuit.report.outputs
  pure (page ["", summary, "", listing])

/-- The outcome of checking a circuit. -/
def verificationPage (kind : String) (width : Int) : Except Error String := do
  let design ← Design.ofKind kind width
  let verdict ← design.verify
  pure (page ["", verdict.summary])

/-- The width of the small multiplier that is shown first. -/
def sampleWidth : Int := 4

/-- One report and one check. -/
def quickTour : Except Error String := do
  let circuit ← Design.synthesize (.multiplier sampleWidth sampleWidth)
  let summary ← circuit.report.summary circuit.netlist
  let checked ← verificationPage "multiplier" sampleWidth
  pure (page (headingLines '-' "1. 4-BIT MULTIPLIER" ++ [summary] ++
    headingLines '-' "2. EXHAUSTIVE CHECK") ++ checked ++
    page (headingLines '=' "QUICK DEMO COMPLETE"))

namespace Menu

/-! ### Texts -/

/-- The banner. -/
def banner : String :=
  page
    [ ""
    , boxTop
    , boxLine 0 ""
    , boxLine 20 "ARITHMETIC CIRCUIT SYNTHESIZER"
    , boxLine 0 ""
    , boxBottom
    , "" ]

/-- The choices, and the question which one it shall be. -/
def choices : String :=
  page
    [ "  [1] Synthesis Demo"
    , "      Adder cells, column compression, cost scaling"
    , ""
    , "  [2] Operator Report"
    , "      Synthesize an adder, popcount or multiplier and list its gates"
    , ""
    , "  [3] Verification"
    , "      Exhaustively check an operator with the gate simulator"
    , ""
    , "  [4] Quick Demo"
    , ""
    , "  [q] Quit"
    , "" ] ++ "Enter your choice: "

/-- The question for a kind of circuit. -/
def kindPrompt : String := "Operator (adder/popcount/multiplier): "

/-- The question for a width. -/
def widthPrompt : String := "Width in bits: "

/-- The request to go on. -/
def pausePrompt : String := "\nPress Enter to continue..."

/-! ### States -/

/-- What is to be done with the circuit that is asked for. -/
inductive Task where
  | report
  | verification
deriving DecidableEq, Repr

/-- What the menu is waiting for. -/
inductive State where
  /-- A choice. -/
  | choosing
  /-- The kind of a circuit. -/
  | naming (task : Task)
  /-- The width of a circuit of the given kind. -/
  | sizing (task : Task) (kind : String)
  /-- Any line at all. -/
  | pausing
  /-- Nothing: the user has quit. -/
  | closed
  /-- Nothing: an error that no answer can be given to. -/
  | failed (error : Error)
deriving Inhabited

/-- What is printed at the start.  A choice is awaited then. -/
def opening : String := banner ++ choices

/-- Print the outcome of an action and ask to go on.  A request that was wrong is answered
with a line; any other error ends the menu. -/
def conclude : Except Error String → String × State
  | .ok text => (text ++ pausePrompt, .pausing)
  | .error error =>
      match error.cls with
      | .badRequest => ("\nError: " ++ error.message ++ "\n" ++ pausePrompt, .pausing)
      | _ => ("", .failed error)

/-- Read a width. -/
def readWidth (line : String) : Except Error Int :=
  let typed := trim line
  match Decimal.readInteger typed with
  | .ok width => .ok width
  | .error .malformed => .error (.notAnInteger typed)
  | .error (.tooManyDigits count) => .error (.tooManyDigits count)

/-- Carry out a task on a circuit whose width was typed. -/
def carryOut (task : Task) (kind line : String) : Except Error String := do
  let width ← readWidth line
  match task with
  | .report => reportPage kind width
  | .verification => verificationPage kind width

/-- What is typed as a choice or a kind, without blanks around it and in small letters. -/
def normalize (line : String) : String :=
  lowercase (trim line)

/-- Act on a choice. -/
def choose (choice : String) : String × State :=
  match choice with
  | "1" => conclude Tour.everything
  | "2" => (kindPrompt, .naming .report)
  | "3" => (kindPrompt, .naming .verification)
  | "4" => conclude quickTour
  | "q" => (page ["", "Goodbye!"], .closed)
  | _ => conclude (.ok (page ["", "Invalid choice. Please try again."]))

/-- Take a line: what is printed, and what the menu waits for next. -/
def feed : State → String → String × State
  | .choosing, line => choose (normalize line)
  | .naming task, line => (widthPrompt, .sizing task (normalize line))
  | .sizing task kind, line => conclude (carryOut task kind line)
  | .pausing, _ => ("\n\n\n" ++ choices, .choosing)
  | .closed, _ => ("", .closed)
  | .failed error, _ => ("", .failed error)

/-! ### Conversations -/

/-- What a conversation printed, and the error that ended it if it was not the user. -/
structure Conversation where
  printed : String
  error : Option Error

/-- Talk until the user quits, an error ends the menu, or a line is wanted after the last
one. -/
def talk (printed : String) : State → List String → Conversation
  | .closed, _ => ⟨printed, none⟩
  | .failed error, _ => ⟨printed, some error⟩
  | _, [] => ⟨printed, some .endOfInput⟩
  | state, line :: rest =>
      let (text, next) := feed state line
      talk (printed ++ text) next rest

/-- The lines of a text.  The last one need not be ended.  The text is what a console hands over,
with a line feed at every end of a line: one that also takes carriage returns for ends of lines has
put line feeds in their place, and any carriage return that is left is part of its line. -/
def linesOf (text : String) : List String :=
  let pieces := (text.toList.splitOn '\n').map String.ofList
  if pieces.getLast? = some "" then pieces.dropLast else pieces

/-- A conversation over the lines of a text. -/
def converse (text : String) : Conversation :=
  talk opening .choosing (linesOf text)

end Menu

end CarrySave
