/-
Module: CarrySave.Main
Layer: Command line
Purpose: The menu on a terminal.
Main exports: main
-/
import CarrySave.Console.Menu

namespace CarrySave.Menu

/-- Print, read a line and go on, until the menu has nothing to wait for.  The exit code
tells whether it was the user who ended it. -/
partial def interact (input output : IO.FS.Stream) (state : State) : IO UInt32 := do
  match state with
  | .closed => pure 0
  | .failed error =>
      IO.eprintln error.message
      pure 1
  | waiting =>
      let line ← input.getLine
      if line.isEmpty then
        IO.eprintln Error.endOfInput.message
        pure 1
      else
        let typed := if line.endsWith "\n" then (line.dropEnd 1).toString else line
        let (text, next) := feed waiting typed
        output.putStr text
        output.flush
        interact input output next

end CarrySave.Menu

open CarrySave in
/-- Start the menu on standard input and output. -/
def main : IO UInt32 := do
  let input ← IO.getStdin
  let output ← IO.getStdout
  output.putStr Menu.opening
  output.flush
  Menu.interact input output .choosing
