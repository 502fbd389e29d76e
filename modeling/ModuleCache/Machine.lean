import ModuleCache.FileSystem.Change
import ModuleCache.Settings.Overrides
import ModuleCache.Text.Quote

/-!
What a run takes from the machine that it is on: how a program runs there, and the names
that are drawn for new directories. Nothing else is known of either.
-/

namespace ModuleCache

namespace Machine

inductive Ending where
  | exited (status : Nat)
  | killed (signal : Nat)
  deriving DecidableEq, Repr

def signalName (number : Nat) : String :=
  let names := ["HUP", "INT", "QUIT", "ILL", "TRAP", "ABRT", "BUS", "FPE", "KILL", "USR1", "SEGV",
    "USR2", "PIPE", "ALRM", "TERM", "STKFLT", "CHLD", "CONT", "STOP", "TSTP", "TTIN", "TTOU", "URG",
    "XCPU", "XFSZ", "VTALRM", "PROF", "WINCH", "IO", "PWR", "SYS"]
  match names[number - 1]? with
  | some name => s!" (SIG{name})"
  | none => ""

/-- The text for how a program ended. -/
def Ending.message : Ending → String
  | .exited status => s!"exit status: {status}"
  | .killed signal => s!"signal: {signal}{signalName signal}"

/-- What a program that ended leaves behind. -/
structure Finished where
  fs : FileSystem
  printed : List UInt8
  complained : List UInt8
  ending : Ending

end Machine

structure Machine where
  /-- Starts a program with its arguments and its environment, and waits for its end. -/
  start : FileSystem → Path → List String → Environment → Except IoError Machine.Finished
  /-- The name that is drawn for a new directory when so many were drawn in vain. -/
  draw : FileSystem → Nat → String

namespace Machine

/-- The directory that holds what is only there for a while. -/
def temporaryParent (fs : FileSystem) (environment : Environment) : Path :=
  let parent : Path := ⟨(environment.lookup "TMPDIR").getD "/tmp"⟩
  if parent.isAbsolute then parent else fs.directory.join parent

/-- How many names are drawn for a new directory. -/
def draws : Nat := 65536

/-- Creates a directory in another one under the first name that is drawn and not taken.
So many names may still be drawn, and so many were. -/
def createBelow (m : Machine) (fs : FileSystem) (parent : Path) :
    (left drawn : Nat) → Except String (FileSystem × Path)
  | 0, _ => .error s!"too many temporary files exist at path {Text.quote parent.text}"
  | left + 1, drawn =>
    let p := parent.join ⟨m.draw fs drawn⟩
    match fs.createDirectory p with
    | .ok fs => .ok (fs, p)
    | .error .exists => m.createBelow fs parent left (drawn + 1)
    | .error e => .error s!"{e.message} at path {Text.quote p.text}"

/-- Creates a directory that was not there before. -/
def createTemporary (m : Machine) (fs : FileSystem) (environment : Environment) :
    Except String (FileSystem × Path) :=
  m.createBelow fs (temporaryParent fs environment) draws 0

/-- Runs a program. What it does to its own directory and number ends with it. -/
def launch (m : Machine) (fs : FileSystem) (program : Path) (arguments : List String)
    (environment : Environment) : Except IoError Finished :=
  (m.start fs program arguments environment).map fun finished =>
    { finished with fs := { finished.fs with current := fs.current, process := fs.process } }

end Machine
end ModuleCache
