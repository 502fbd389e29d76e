import ModuleCache.FileSystem
import ModuleCache.Text.Split

/-!
Finding the program of a transpiler. A program that is given with a directory is taken
as it is; a bare name is looked for in the directories of a search path, the first
executable file of that name wins.
-/

namespace ModuleCache.Transpiler

inductive LocateError where
  /-- There is no such program; `searched` places were looked at. -/
  | notFound (program : String) (searched : Nat)
  /-- There is something else under the program's path. -/
  | notExecutable (path : Path)
  deriving DecidableEq, Repr

def LocateError.message : LocateError → String
  | .notFound program searched =>
    s!"transpiler '{program}' not found (searched {searched} locations)"
  | .notExecutable path => s!"transpiler at {path.text} is not an executable file"

/-- The directories of a search path: the pieces between its colons. An empty piece is
the current directory. -/
def searchDirectories : Option String → List Path
  | none => []
  | some text => (Text.split ':' text.toList).map fun piece => ⟨String.ofList piece⟩

def locate (fs : FileSystem) (program : String) (searchPath : Option String) :
    Except LocateError Path :=
  let path : Path := ⟨program⟩
  if 1 < path.components.length then
    if fs.isExecutable path then .ok path
    else if fs.existsAt path then .error (.notExecutable path)
    else .error (.notFound program 1)
  else
    let candidates := (searchDirectories searchPath).map (·.join path)
    match candidates.find? fs.isExecutable with
    | some candidate => .ok candidate
    | none => .error (.notFound program candidates.length)

end ModuleCache.Transpiler
