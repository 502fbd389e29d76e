import ModuleCache.CommandLine
import ModuleCache.CommandLine.World
import ModuleCache.Shell.Ending

/-!
The program on its streams. One line of standard input describes what the run finds
around it, so a run touches no file of the machine it is on.
-/

open ModuleCache

/-- Runs the program on its arguments in the world that the first line of standard input
describes. What it prints and its complaints go to the two output streams, and its code
is the exit code; two stands for an unusable command line or description. -/
def main (arguments : List String) : IO UInt32 := do
  let line ← (← IO.getStdin).getLine
  let outcome := do
    let world ← CommandLine.World.ofText? line
    CommandLine.run Shell.machine world.fs world.environment arguments
  match outcome with
  | none => return 2
  | some outcome =>
    IO.print outcome.transcript.out
    IO.eprint outcome.transcript.err
    return UInt32.ofNat outcome.code
