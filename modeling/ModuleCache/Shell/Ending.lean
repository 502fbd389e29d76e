import ModuleCache.Machine
import ModuleCache.Shell.Run

/-!
Programs from their start to their end: what a program leaves behind, and with which
status or signal it ends.
-/

namespace ModuleCache.Shell

open Machine (Ending Finished)

/-- How many commands may be nested in or follow one another. -/
def timeLimit : Nat := 100000

/-- The ending of a program that came to its end with a status or was stopped. -/
def endingOf (result : Except Stop Nat) (status : Nat) : Ending :=
  match result with
  | .ok status | .error (.exit status) | .error (.finished status) => .exited status
  | .error (.killed signal) => .killed signal
  | .error (.endRound ..) => .exited status

/-- Runs the commands that a script asked for at its end. -/
def runAtEnd (result : Except Stop Nat) (s : State) : Except Stop Nat × State :=
  match endingOf result s.status, s.atEnd with
  | .exited status, some text =>
    match runText timeLimit text { s with atEnd := none, status, stopsOnFailure := false } with
    | (.error (.exit status), s) => (.ok status, s)
    | (_, s) => (.ok status, s)
  | _, _ => (result, s)

def finish (body : Action Nat) (start : State) : Finished :=
  let (result, s) := body start
  let (result, s) := runAtEnd result s
  ⟨s.fs, s.printed, s.complained, endingOf result s.status⟩

/-- Starts a program and waits for its end. -/
def start (fs : FileSystem) (program : Path) (arguments : List String)
    (environment : Environment) : Except IoError Finished := do
  let searchPath := (environment.lookup "PATH").getD ""
  let (file, found) ← startable fs program searchPath
  let state : State := { fs, name := file.text, arguments, bindings := environment }
  match found with
  | .script text options =>
    let state := options.toList.foldl (fun s letter => s.switch true letter) state
    pure (finish (do runText timeLimit text; pure (← get).status) state)
  | .system .. =>
    pure (finish (runExecutable timeLimit program.text file found arguments) state)
  | .unknown _ => throw .notProgram

/-- The machine on which programs are scripts and the utilities that these know. -/
def machine : Machine where
  start := start
  draw _ drawn := ".tmp" ++ toString (100000 + drawn)

end ModuleCache.Shell
