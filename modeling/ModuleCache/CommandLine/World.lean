import ModuleCache.FileSystem.Change
import ModuleCache.Json.Value
import ModuleCache.Settings.Overrides

/-!
Descriptions of what a run of the program finds around it: the current directory, the
environment, the files, and the number of its process. A description is a JSON object with
the members `directory`, `environment`, `files` and `process`, each of which may be missing.
A file is an object with the members `path` and `text`, and perhaps `mode` and `modified`
(in seconds). Programs count as files too, so the interpreter of a script has to be
described as well.
-/

namespace ModuleCache.CommandLine

open Json (Value)

/-- The member of an object under a key. -/
def member? (key : String) : Value → Option Value
  | .object members => members.lookup (some key)
  | _ => none

def textOf? : Value → Option String
  | .text content => content
  | _ => none

def numberOf? : Value → Option Nat
  | .number literal => (String.ofList literal).toNat?
  | _ => none

structure World where
  fs : FileSystem
  environment : Environment

namespace World

/-- A tree with nothing but its root. -/
def bareTree : FileSystem where
  nodes := [([], .directory true 0)]
  current := []
  now := 1700000000 * 1000000000
  process := 1

/-- The file system with a directory, and those above it. -/
def addDirectory? (fs : FileSystem) (p : Path) : Option FileSystem :=
  match fs.createDirectories p with
  | (fs, .ok ()) => some fs
  | (_, .error _) => none

/-- The file system with a file that a value describes. -/
def addFile? (fs : FileSystem) (value : Value) : Option FileSystem := do
  let file : Path := ⟨← (member? "path" value).bind textOf?⟩
  let text ← (member? "text" value).bind textOf?
  let mode := ((member? "mode" value).bind numberOf?).getD FileSystem.defaultMode
  let modified := ((member? "modified" value).bind numberOf?).getD 0
  let fs ← addDirectory? fs (file.parent?.getD ⟨""⟩)
  let fs ← (fs.writeText file text).toOption
  let fs ← (fs.setMode file mode).toOption
  (fs.setModified file (modified * 1000000000)).toOption

def environmentOf : Value → Environment
  | .object members => members.filterMap fun (name, value) => do pure (← name, ← textOf? value)
  | _ => []

/-- What a value describes, unless its files cannot stand together. -/
def ofValue? (value : Value) : Option World := do
  let directory := ((member? "directory" value).bind textOf?).getD "/"
  let fs ← addDirectory? bareTree ⟨directory⟩
  let fs ←
    match member? "files" value with
    | some (.array files) => files.foldlM addFile? fs
    | _ => pure fs
  let current ← (fs.locate ⟨directory⟩).toOption
  let process := ((member? "process" value).bind numberOf?).getD fs.process
  pure ⟨{ fs with current, process }, ((member? "environment" value).map environmentOf).getD []⟩

def ofText? (text : String) : Option World := (Json.parse? text).bind ofValue?

end World
end ModuleCache.CommandLine
