/-
Module: CarrySave.Proofs.Console.Conversation
Layer: Proofs
Purpose: Where the menu is in a text.  Choices stand four lines apart when a circuit was asked for and
  two lines apart otherwise, whatever came of the action; so the place of a choice is known from the
  lines before it.  A conversation ends with a choice to quit, or a line is wanted after the last one.
Main exports: Menu.ChoiceAt, Menu.situation, Menu.Situation.answered, Menu.Told, Menu.Reached,
  Menu.KeepsPlace, Menu.converse_keeps_place
-/
import CarrySave.Proofs.Console.Answers

namespace CarrySave.Menu

open Text

/-! ### Lines -/

theorem newline_notMem_splitOn {chars piece : List Char} (member : piece ∈ chars.splitOn '\n') :
    '\n' ∉ piece := by
  induction chars generalizing piece with
  | nil =>
      rw [List.splitOn_nil, List.mem_singleton] at member
      simp [member]
  | cons c rest inductionHypothesis =>
      rw [List.splitOn_cons_eq_if_modifyHead] at member
      split at member
      case isTrue =>
        rcases List.mem_cons.mp member with rfl | later
        · exact List.not_mem_nil
        · exact inductionHypothesis later
      case isFalse other =>
        cases pieces : rest.splitOn '\n' with
        | nil => simp [pieces] at member
        | cons first others =>
            rw [pieces] at member inductionHypothesis
            rcases List.mem_cons.mp member with rfl | later
            · have kept := inductionHypothesis List.mem_cons_self
              simpa [Ne.symm (by simpa using other)] using kept
            · exact inductionHypothesis (List.mem_cons_of_mem _ later)

/-- The lines of a text are lines. -/
theorem oneLine_of_mem_linesOf {text line : String} (listed : line ∈ linesOf text) :
    OneLine line := by
  have piece : line ∈ (text.toList.splitOn '\n').map String.ofList := by
    rw [linesOf] at listed
    split at listed
    · exact List.mem_of_mem_dropLast listed
    · exact listed
  obtain ⟨chars, split, rfl⟩ := List.mem_map.mp piece
  rw [OneLine, String.toList_ofList]
  exact newline_notMem_splitOn split

/-- A text consists of its lines, whether the last one is ended or not. -/
theorem eq_intercalate_linesOf (text : String) :
    text = "\n".intercalate (linesOf text) ∨ text = "\n".intercalate (linesOf text) ++ "\n" := by
  have whole : "\n".intercalate ((text.toList.splitOn '\n').map String.ofList) = text := by
    apply String.toList_injective
    rw [String.toList_intercalate, List.map_map]
    simp
  simp only [linesOf]
  generalize (text.toList.splitOn '\n').map String.ofList = pieces at whole ⊢
  split
  case isFalse => exact .inl whole.symm
  case isTrue ended =>
    -- The empty piece at the end stands for the end of the line before it.
    obtain ⟨lines, rfl⟩ := List.getLast?_eq_some_iff.mp ended
    rw [List.dropLast_concat]
    rcases eq_or_ne lines [] with rfl | nonempty
    · exact .inl whole.symm
    · rw [String.intercalate_append_of_ne_nil nonempty (List.cons_ne_nil _ _),
        String.intercalate_singleton, String.append_empty] at whole
      exact .inr whole.symm

/-- Lines that are joined are the lines of the text, if the last one is not empty. -/
theorem linesOf_intercalate {lines : List String} (whole : ∀ line ∈ lines, OneLine line)
    (nonempty : lines ≠ []) (ended : lines.getLast? ≠ some "") :
    linesOf ("\n".intercalate lines) = lines := by
  have pieces : (("\n".intercalate lines).toList.splitOn '\n').map String.ofList = lines := by
    rw [splitOn_intercalate whole nonempty, List.map_map]
    simp
  simp only [linesOf, pieces, if_neg ended]

theorem oneLine_normalize {line : String} (single : OneLine line) : OneLine (normalize line) :=
  oneLine_lowercase (oneLine_trim single)

/-! ### Places of choices -/

/-- What is typed to ask for a task. -/
def Task.choice : Task → String
  | .report => "2"
  | .verification => "3"

theorem Task.choice_ne_quit (task : Task) : task.choice ≠ "q" := by
  cases task <;> decide

/-- How many lines there are from a choice to the next one. -/
def stride (choice : String) : Nat :=
  if choice = "2" ∨ choice = "3" then 4 else 2

@[simp] theorem stride_choice (task : Task) : stride task.choice = 4 := by
  cases task <;> rfl

/-- The places of the choices among lines: the first one, and the one that follows a choice to go
on. -/
inductive ChoiceAt (lines : List String) : Nat → Prop where
  | first : ChoiceAt lines 0
  | next {place : Nat} {line : String} (choice : ChoiceAt lines place)
      (read : lines[place]? = some line) (goesOn : normalize line ≠ "q") :
      ChoiceAt lines (place + stride (normalize line))

/-- After a choice that asks for a circuit, the next one is four lines further on. -/
theorem ChoiceAt.asked {lines : List String} {place : Nat} {line : String} {task : Task}
    (choice : ChoiceAt lines place) (read : lines[place]? = some line)
    (asked : normalize line = task.choice) : ChoiceAt lines (place + 4) := by
  have goesOn : normalize line ≠ "q" := by
    rw [asked]
    exact task.choice_ne_quit
  have later := choice.next read goesOn
  rwa [asked, stride_choice] at later

/-! ### Situations -/

/-- What was printed so far, and what the menu waits for. -/
structure Situation where
  printed : String
  awaited : State

namespace Situation

def start : Situation :=
  ⟨opening, .choosing⟩

def feed (now : Situation) (line : String) : Situation :=
  ⟨now.printed ++ (Menu.feed now.awaited line).1, (Menu.feed now.awaited line).2⟩

theorem feed_of_closed {now : Situation} {line : String} (closed : now.awaited = .closed) :
    now.feed line = now := by
  rcases now with ⟨printed, awaited⟩
  cases closed
  simp [feed, Menu.feed]

/-- What was said to an action is printed, and the request to go on. -/
def told (now : Situation) (text : String) : Situation :=
  ⟨now.printed ++ (text ++ pausePrompt), .pausing⟩

/-- Both questions for a circuit are printed, what was said to them, and the request to go on. -/
def answered (now : Situation) (text : String) : Situation :=
  ⟨now.printed ++ kindPrompt ++ widthPrompt ++ (text ++ pausePrompt), .pausing⟩

/-- The conversation if there are no more lines. -/
def conversation (now : Situation) : Conversation :=
  match now.awaited with
  | .closed => ⟨now.printed, none⟩
  | .failed error => ⟨now.printed, some error⟩
  | _ => ⟨now.printed, some .endOfInput⟩

end Situation

/-- The situation in which the line at a place is taken. -/
def situation (lines : List String) (place : Nat) : Situation :=
  (lines.take place).foldl Situation.feed .start

/-- To talk is to take one line after another. -/
theorem talk_eq (now : Situation) (lines : List String) :
    talk now.printed now.awaited lines = (lines.foldl Situation.feed now).conversation := by
  induction lines generalizing now with
  | nil =>
      rcases now with ⟨printed, _ | _ | _ | _ | _ | _⟩ <;> rfl
  | cons line rest inductionHypothesis =>
      have later := inductionHypothesis (now.feed line)
      rw [List.foldl_cons, ← later]
      rcases now with ⟨printed, _ | _ | _ | _ | _ | _⟩
      -- Nothing is taken any more, so nothing is printed on top.
      case closed | failed => cases rest <;> simp [talk, Situation.feed, feed]
      all_goals simp only [talk, Situation.feed]

theorem converse_eq (text : String) :
    converse text = (situation (linesOf text) (linesOf text).length).conversation := by
  rw [situation, List.take_length]
  exact talk_eq .start (linesOf text)

section Places

variable {lines : List String} {place later : Nat} {line : String}

theorem situation_succ (read : lines[place]? = some line) :
    situation lines (place + 1) = (situation lines place).feed line := by
  simp [situation, List.take_add_one, read]

/-- Once the user has quit, nothing changes. -/
theorem situation_closed (closed : (situation lines place).awaited = .closed)
    (le : place ≤ later) : situation lines later = situation lines place := by
  induction later, le using Nat.le_induction with
  | base => rfl
  | succ later _ inductionHypothesis =>
      cases read : lines[later]? with
      | none =>
          rw [← inductionHypothesis]
          simp [situation, List.take_add_one, read]
      | some line =>
          rw [situation_succ read, inductionHypothesis, Situation.feed_of_closed closed]

/-! ### Actions -/

/-- A refusal is answered with one line and the request to go on. -/
theorem conclude_refused {task : Task} {kind width : String} {error : Error}
    (refusal : Refusal task kind width error) :
    conclude (carryOut task kind width) =
      ("\nError: " ++ error.message ++ "\n" ++ pausePrompt, .pausing) := by
  simp only [refusal.carryOut_eq, conclude, refusal.cls_eq]

/-- Whatever is typed, there is an answer and the request to go on. -/
theorem conclude_carryOut (task : Task) (kind width : String) :
    ∃ text, conclude (carryOut task kind width) = (text ++ pausePrompt, .pausing) := by
  rcases granted_or_refusal task kind width with ⟨text, carried⟩ | ⟨error, refusal⟩
  · exact ⟨text, by rw [carried, conclude]⟩
  · exact ⟨_, conclude_refused refusal⟩

theorem choose_choice (task : Task) : choose task.choice = (kindPrompt, .naming task) := by
  cases task <;> rfl

theorem choose_quit : choose "q" = ("\nGoodbye!\n", .closed) := by
  rfl

/-- What is printed for a choice that asks for no circuit: a page, or that there is no such choice. -/
inductive Told : String → String → Prop where
  | tour {text : String} (made : Tour.everything = .ok text) : Told "1" text
  | quickTour {text : String} (made : quickTour = .ok text) : Told "4" text
  | invalid {choice : String} (unknown : choice ∉ ["1", "2", "3", "4", "q"]) :
      Told choice "\nInvalid choice. Please try again.\n"

theorem choose_told {choice : String} (asks : ∀ task : Task, choice ≠ task.choice)
    (goesOn : choice ≠ "q") :
    ∃ text, Told choice text ∧ choose choice = (text ++ pausePrompt, .pausing) := by
  unfold choose
  split
  case h_1 =>
    obtain ⟨text, made⟩ := Tour.granted_everything
    exact ⟨text, .tour made, by rw [made, conclude]⟩
  case h_2 => exact absurd rfl (asks .report)
  case h_3 => exact absurd rfl (asks .verification)
  case h_4 =>
    obtain ⟨text, made⟩ := granted_quickTour
    exact ⟨text, .quickTour made, by rw [made, conclude]⟩
  case h_5 => exact absurd rfl goesOn
  case h_6 tour report verification quick quit =>
    have unknown : choice ∉ ["1", "2", "3", "4", "q"] := by
      simpa using ⟨tour, report, verification, quick, quit⟩
    exact ⟨_, .invalid unknown, rfl⟩

theorem stride_told {choice : String} (asks : ∀ task : Task, choice ≠ task.choice) :
    stride choice = 2 :=
  if_neg (not_or.mpr ⟨asks .report, asks .verification⟩)

/-! ### From one choice to the next -/

/-- A circuit is asked for in two lines after the choice, and answered. -/
theorem situation_asked {task : Task} {kind width text : String}
    (choosing : (situation lines place).awaited = .choosing) (read : lines[place]? = some line)
    (asked : normalize line = task.choice) (named : lines[place + 1]? = some kind)
    (sized : lines[place + 2]? = some width)
    (concluded :
      conclude (carryOut task (normalize kind) width) = (text ++ pausePrompt, .pausing)) :
    situation lines (place + 3) = (situation lines place).answered text := by
  have naming : situation lines (place + 1) =
      ⟨(situation lines place).printed ++ kindPrompt, .naming task⟩ := by
    rw [situation_succ read, Situation.feed, choosing, feed, asked, choose_choice]
  have sizing : situation lines (place + 2) =
      ⟨(situation lines place).printed ++ kindPrompt ++ widthPrompt,
        .sizing task (normalize kind)⟩ := by
    rw [situation_succ named, naming, Situation.feed, feed]
  rw [situation_succ sized, sizing, Situation.feed, feed, concluded]
  rfl

/-- Any other choice is answered at once. -/
theorem situation_told (choosing : (situation lines place).awaited = .choosing)
    (read : lines[place]? = some line) (asks : ∀ task : Task, normalize line ≠ task.choice)
    (goesOn : normalize line ≠ "q") :
    ∃ text, Told (normalize line) text ∧
      situation lines (place + 1) = (situation lines place).told text := by
  obtain ⟨text, told, chosen⟩ := choose_told asks goesOn
  refine ⟨text, told, ?_⟩
  rw [situation_succ read, Situation.feed, choosing, feed, chosen]
  rfl

theorem situation_quit (choosing : (situation lines place).awaited = .choosing)
    (read : lines[place]? = some line) (quits : normalize line = "q") :
    situation lines (place + 1) = ⟨(situation lines place).printed ++ "\nGoodbye!\n", .closed⟩ := by
  rw [situation_succ read, Situation.feed, choosing, feed, quits, choose_quit]

/-- After a request to go on, the choices are printed again. -/
theorem situation_paused (pausing : (situation lines place).awaited = .pausing)
    (below : place < lines.length) :
    situation lines (place + 1) =
      ⟨(situation lines place).printed ++ ("\n\n\n" ++ choices), .choosing⟩ := by
  rw [situation_succ (List.getElem?_eq_getElem below), Situation.feed, pausing, feed]

/-- Wherever a choice stands, it is awaited. -/
theorem ChoiceAt.awaited (choice : ChoiceAt lines place) (le : place ≤ lines.length) :
    (situation lines place).awaited = .choosing := by
  induction choice with
  | first => rfl
  | @next place line choice read goesOn inductionHypothesis =>
      have choosing := inductionHypothesis (by omega)
      by_cases asks : ∃ task : Task, normalize line = task.choice
      · obtain ⟨task, asked⟩ := asks
        rw [asked, stride_choice] at le ⊢
        have named := List.getElem?_eq_getElem (l := lines) (i := place + 1) (by omega)
        have sized := List.getElem?_eq_getElem (l := lines) (i := place + 2) (by omega)
        obtain ⟨text, concluded⟩ := conclude_carryOut task (normalize lines[place + 1]) lines[place + 2]
        have shown := situation_asked choosing read asked named sized concluded
        exact congrArg Situation.awaited (situation_paused (by rw [shown]; rfl) (by omega))
      · have tells := not_exists.mp asks
        rw [stride_told tells] at le ⊢
        obtain ⟨text, -, shown⟩ := situation_told choosing read tells goesOn
        exact congrArg Situation.awaited (situation_paused (by rw [shown]; rfl) (by omega))

theorem ChoiceAt.awaited_of_read (choice : ChoiceAt lines place)
    (read : lines[place]? = some line) : (situation lines place).awaited = .choosing :=
  choice.awaited (List.getElem?_eq_some_iff.mp read).choose.le

/-! ### Every place -/

/-- What the menu can wait for at a place, told from the last choice before it. -/
inductive Reached (lines : List String) : Nat → State → Prop where
  | choosing {place : Nat} (choice : ChoiceAt lines place) : Reached lines place .choosing
  | naming {place : Nat} {line : String} {task : Task} (choice : ChoiceAt lines place)
      (read : lines[place]? = some line) (asked : normalize line = task.choice) :
      Reached lines (place + 1) (.naming task)
  | sizing {place : Nat} {line kind : String} {task : Task} (choice : ChoiceAt lines place)
      (read : lines[place]? = some line) (asked : normalize line = task.choice) :
      Reached lines (place + 2) (.sizing task kind)
  | pausing {place later : Nat} {line : String} (choice : ChoiceAt lines place)
      (read : lines[place]? = some line) (goesOn : normalize line ≠ "q")
      (last : later + 1 = place + stride (normalize line)) : Reached lines later .pausing
  | closed {place later : Nat} {line : String} (choice : ChoiceAt lines place)
      (read : lines[place]? = some line) (quits : normalize line = "q") (below : place < later) :
      Reached lines later .closed

/-- A line leads from a place to the next one. -/
theorem Reached.step {state : State} (reached : Reached lines place state)
    (read : lines[place]? = some line) : Reached lines (place + 1) (feed state line).2 := by
  cases reached with
  | choosing choice =>
      by_cases quits : normalize line = "q"
      · rw [feed, quits, choose_quit]
        exact .closed choice read quits (by omega)
      · by_cases asks : ∃ task : Task, normalize line = task.choice
        · obtain ⟨task, asked⟩ := asks
          rw [feed, asked, choose_choice]
          exact .naming choice read asked
        · have tells := not_exists.mp asks
          obtain ⟨text, -, chosen⟩ := choose_told tells quits
          rw [feed, chosen]
          exact .pausing choice read quits (by rw [stride_told tells])
  | naming choice chosen asked => exact .sizing choice chosen asked
  | @sizing place first kind task choice chosen asked =>
      obtain ⟨text, concluded⟩ := conclude_carryOut task kind line
      rw [feed, concluded]
      have goesOn : normalize first ≠ "q" := by
        rw [asked]
        exact task.choice_ne_quit
      exact .pausing choice chosen goesOn (by rw [asked, stride_choice])
  | pausing choice chosen goesOn last =>
      rw [last]
      exact .choosing (choice.next chosen goesOn)
  | closed choice chosen quits below =>
      exact .closed choice chosen quits (by omega)

/-- The menu never loses its place. -/
theorem reached_situation (le : place ≤ lines.length) :
    Reached lines place (situation lines place).awaited := by
  induction place with
  | zero => exact .choosing .first
  | succ place inductionHypothesis =>
      have read := List.getElem?_eq_getElem (l := lines) (i := place) (by omega)
      rw [situation_succ read]
      exact (inductionHypothesis (by omega)).step read

/-- A choice is awaited where one stands, and nowhere else. -/
theorem awaited_eq_choosing_iff (le : place ≤ lines.length) :
    (situation lines place).awaited = .choosing ↔ ChoiceAt lines place := by
  refine ⟨fun choosing => ?_, fun choice => choice.awaited le⟩
  have reached := reached_situation le
  rw [choosing] at reached
  cases reached with
  | choosing choice => exact choice

/-- The menu is only closed by a choice to quit. -/
theorem Reached.quits (reached : Reached lines place .closed) :
    ∃ place line, ChoiceAt lines place ∧ lines[place]? = some line ∧ normalize line = "q" := by
  cases reached with
  | closed choice read quits _ => exact ⟨_, _, choice, read, quits⟩

/-- As long as the menu is not closed it wants a line. -/
theorem Reached.conversation_eq {now : Situation} (reached : Reached lines place now.awaited)
    (unclosed : now.awaited ≠ .closed) : now.conversation = ⟨now.printed, some .endOfInput⟩ := by
  rcases now with ⟨printed, awaited⟩
  cases reached with
  | closed _ _ _ _ => exact absurd rfl unclosed
  | choosing _ | naming _ _ _ | sizing _ _ _ | pausing _ _ _ _ => rfl

/-- The user quits at a choice, or there is none to quit and a line is wanted after the last one. -/
theorem conversation_cases (lines : List String) :
    (∃ place line, ChoiceAt lines place ∧ lines[place]? = some line ∧ normalize line = "q" ∧
      (situation lines lines.length).conversation =
        ⟨(situation lines place).printed ++ "\nGoodbye!\n", none⟩) ∨
    ((∀ place line, ChoiceAt lines place → lines[place]? = some line → normalize line ≠ "q") ∧
      (situation lines lines.length).conversation =
        ⟨(situation lines lines.length).printed, some .endOfInput⟩) := by
  by_cases quits : ∃ place line, ChoiceAt lines place ∧ lines[place]? = some line ∧
      normalize line = "q"
  · obtain ⟨place, line, choice, read, typed⟩ := quits
    have below : place < lines.length := (List.getElem?_eq_some_iff.mp read).choose
    have closed := situation_quit (choice.awaited_of_read read) read typed
    have final := situation_closed (by rw [closed]) (Nat.succ_le_of_lt below)
    exact .inl ⟨place, line, choice, read, typed, by rw [final, closed]; rfl⟩
  · have reached := reached_situation (le_refl lines.length)
    refine .inr ⟨fun place line choice read typed => quits ⟨place, line, choice, read, typed⟩, ?_⟩
    exact reached.conversation_eq fun closed => quits (closed ▸ reached).quits

end Places

/-! ### Conversations -/

/-- A choice is awaited exactly where one stands.  A circuit that is asked for is answered after both
questions: with one line if there is a reason to refuse it, else with a page.  Any other choice to go
on is answered at once.  In all of these cases there is the request to go on. -/
structure KeepsPlace (lines : List String) : Prop where
  awaits : ∀ place ≤ lines.length,
    (situation lines place).awaited = .choosing ↔ ChoiceAt lines place
  refuses : ∀ {place line} {task : Task} {kind width error}, ChoiceAt lines place →
    lines[place]? = some line → normalize line = task.choice →
    lines[place + 1]? = some kind → lines[place + 2]? = some width →
    Refusal task (normalize kind) width error →
    OneLine error.message ∧ situation lines (place + 3) =
      (situation lines place).answered ("\nError: " ++ error.message ++ "\n")
  grants : ∀ {place line} {task : Task} {kind width}, ChoiceAt lines place →
    lines[place]? = some line → normalize line = task.choice →
    lines[place + 1]? = some kind → lines[place + 2]? = some width →
    (∀ error, ¬Refusal task (normalize kind) width error) →
    ∃ text, carryOut task (normalize kind) width = .ok text ∧
      situation lines (place + 3) = (situation lines place).answered text
  tells : ∀ {place line}, ChoiceAt lines place → lines[place]? = some line →
    (∀ task : Task, normalize line ≠ task.choice) → normalize line ≠ "q" →
    ∃ text, Told (normalize line) text ∧
      situation lines (place + 1) = (situation lines place).told text

theorem keepsPlace_of_oneLine {lines : List String} (plain : ∀ line ∈ lines, OneLine line) :
    KeepsPlace lines where
  awaits _ le := awaited_eq_choosing_iff le
  refuses choice read asked named sized refusal :=
    ⟨refusal.oneLine (oneLine_normalize (plain _ (List.mem_of_getElem? named))),
      situation_asked (choice.awaited_of_read read) read asked named sized
        (conclude_refused refusal)⟩
  grants choice read asked named sized never := by
    obtain ⟨text, carried⟩ := granted_carryOut never
    have concluded := congrArg conclude carried
    exact ⟨text, carried,
      situation_asked (choice.awaited_of_read read) read asked named sized concluded⟩
  tells choice read tells goesOn := situation_told (choice.awaited_of_read read) read tells goesOn

/-- Whatever the text, the menu keeps its place among the lines that it consists of, and the conversation
ends with a choice to quit or, if there is none, with a line that is wanted after the last one. -/
theorem converse_keeps_place (text : String) :
    (∀ line ∈ linesOf text, OneLine line) ∧
    (text = "\n".intercalate (linesOf text) ∨ text = "\n".intercalate (linesOf text) ++ "\n") ∧
    KeepsPlace (linesOf text) ∧
    ((∃ place line, ChoiceAt (linesOf text) place ∧ (linesOf text)[place]? = some line ∧
        normalize line = "q" ∧
        converse text = ⟨(situation (linesOf text) place).printed ++ "\nGoodbye!\n", none⟩) ∨
      ((∀ place line, ChoiceAt (linesOf text) place → (linesOf text)[place]? = some line →
          normalize line ≠ "q") ∧
        converse text =
          ⟨(situation (linesOf text) (linesOf text).length).printed, some .endOfInput⟩)) := by
  have plain : ∀ line ∈ linesOf text, OneLine line := fun _ => oneLine_of_mem_linesOf
  refine ⟨plain, eq_intercalate_linesOf text, keepsPlace_of_oneLine plain, ?_⟩
  rw [converse_eq]
  exact conversation_cases (linesOf text)

/-- Circuits that are asked for in vain, one for each reason, and a choice to quit. -/
def inVain : List String :=
  ["2", "Adder", "x", "", "3", "nand", "4", "", "2", "Adder", "-1", "", "3", "Adder", "13", "", " Q "]

/-- A width that is no integer, an unknown kind, a negative width and too many inputs are answered with
one line each, and the next choice stands four lines after the one that asked for the circuit. -/
theorem converse_keeps_place_afterError :
    situation inVain 3 = (situation inVain 0).answered
      "\nError: invalid literal for int() with base 10: 'x'\n" ∧
    situation inVain 7 = (situation inVain 4).answered
      "\nError: Unknown operator 'nand' (choose from adder, popcount, multiplier)\n" ∧
    situation inVain 11 = (situation inVain 8).answered
      "\nError: Input count must be non-negative, got -1\n" ∧
    situation inVain 15 = (situation inVain 12).answered
      "\nError: adder 13 has 26 input bits; exhaustive checks are limited to 24\n" ∧
    (∀ place ∈ [0, 4, 8, 12, 16], (situation inVain place).awaited = .choosing) ∧
    ∃ before, converse ("\n".intercalate inVain) = ⟨before ++ "\nGoodbye!\n", none⟩ := by
  have lines : linesOf ("\n".intercalate inVain) = inVain :=
    linesOf_intercalate (by decide) (by decide) (by decide)
  obtain ⟨-, -, keeps, ends⟩ := converse_keeps_place ("\n".intercalate inVain)
  rw [lines] at keeps ends
  have report : normalize "2" = Task.report.choice := by decide +kernel
  have verification : normalize "3" = Task.verification.choice := by decide +kernel
  have quits : normalize " Q " = "q" := by decide +kernel
  have adder : normalize "Adder" = "adder" := by decide +kernel
  have nand : normalize "nand" = "nand" := by decide +kernel
  have one : ChoiceAt inVain 0 := .first
  have two := one.asked rfl report
  have three := two.asked rfl verification
  have four := three.asked rfl report
  have last := four.asked rfl verification
  refine ⟨?_, ?_, ?_, ?_, ?_, ?_⟩
  · have refusal : Refusal .report (normalize "Adder") "x" (.notAnInteger (trim "x")) :=
      .notAnInteger (by decide +kernel)
    have typed : trim "x" = "x" := by decide +kernel
    have quoted : Text.quoted "x" = "'x'" := by
      have printable : isPrintable 'x' = true := by
        rw [isPrintable, CharClass.has, ← Array.any_toList]
        decide +kernel
      have chars : "x".toList = ['x'] := rfl
      simp [Text.quoted, chooseQuote, escapeChar, singleQuote, chars, printable]
    obtain ⟨-, shown⟩ := keeps.refuses one rfl report rfl rfl refusal
    rw [typed, Error.message_notAnInteger, quoted] at shown
    exact shown
  · have read : Decimal.readInteger (trim "4") = .ok 4 := by decide +kernel
    have refusal : Refusal .verification (normalize "nand") "4" (.unknownCircuit "nand") := by
      rw [nand]
      exact .unknown read (by decide)
    exact (keeps.refuses two rfl verification rfl rfl refusal).2
  · have read : Decimal.readInteger (trim "-1") = .ok (-1) := by decide +kernel
    have refusal : Refusal .report (normalize "Adder") "-1" (.negativeInputs (.int (-1))) := by
      rw [adder]
      exact .negative read (by decide) (by decide)
    have message : (Error.negativeInputs (.int (-1))).message =
        "Input count must be non-negative, got -1" := by decide +kernel
    obtain ⟨-, shown⟩ := keeps.refuses three rfl report rfl rfl refusal
    rw [message] at shown
    exact shown
  · have read : Decimal.readInteger (trim "13") = .ok 13 := by decide +kernel
    have refusal : Refusal .verification (normalize "Adder") "13"
        (.tooManyToCheck (Design.adder 13).requestName (Design.adder 13).inputBits) := by
      rw [adder]
      exact .tooMany read rfl rfl (by decide)
    have message : (Error.tooManyToCheck (Design.adder 13).requestName
        (Design.adder 13).inputBits).message =
        "adder 13 has 26 input bits; exhaustive checks are limited to 24" := by decide +kernel
    obtain ⟨-, shown⟩ := keeps.refuses four rfl verification rfl rfl refusal
    rw [message] at shown
    exact shown
  · simpa using ⟨(keeps.awaits _ (by decide)).mpr one, (keeps.awaits _ (by decide)).mpr two,
      (keeps.awaits _ (by decide)).mpr three, (keeps.awaits _ (by decide)).mpr four,
      (keeps.awaits _ (by decide)).mpr last⟩
  · rcases ends with ⟨place, line, -, -, -, ended⟩ | ⟨goesOn, -⟩
    · exact ⟨_, ended⟩
    · exact absurd quits (goesOn 16 " Q " last rfl)

end CarrySave.Menu
