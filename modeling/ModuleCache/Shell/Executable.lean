import ModuleCache.Shell.Utility
import ModuleCache.Transpiler.Locator

/-!
What a file is as a program: a script that names its interpreter in its first line, a
system program, or nothing that can be started. Bare names are looked for in the
directories of a search path.
-/

namespace ModuleCache.Shell

/-- What runs when a file is started. -/
inductive Executable where
  /-- A script, with the letters of the options that it is run with. -/
  | script (text : String) (options : String)
  /-- A system program, with the arguments that come before the given ones. -/
  | system (name : String) (arguments : List String)
  /-- A file that does not say what it is. -/
  | unknown (text : String)

/-- The names of the interpreters of scripts. -/
def interpreters : List String := ["sh", "dash", "bash"]

/-- What runs for the first line of a script that names its interpreter, where all that
stands behind the interpreter is one argument. -/
def interpreted (fs : FileSystem) (file : Path) (content : List UInt8) :
    Except IoError Executable := do
  let isBlank (c : Char) : Bool := c == ' ' || c == '\t'
  let line := (Text.readLossy (content.takeWhile (· != 10))).drop 2
  let line := ((line.dropWhile isBlank).reverse.dropWhile isBlank).reverse
  let interpreter : Path := ⟨String.ofList (line.takeWhile (!isBlank ·))⟩
  let argument := String.ofList ((line.dropWhile (!isBlank ·)).dropWhile isBlank)
  match ← fs.find interpreter, utilityName? (← fs.locate interpreter) with
  | .directory .., _ => throw .noPermission
  | .file _ mode _, none => throw (if mode &&& 0o111 = 0 then .noPermission else .notProgram)
  | .file .., some name =>
    if interpreters.contains name || (name = "env" && interpreters.contains argument) then
      pure (.script (textOf content)
        (if argument.toList.head? = some '-' then argument else ""))
    else pure (.system name ((if argument = "" then [] else [argument]) ++ [file.text]))

/-- What runs when the file at a path is started. -/
def executable (fs : FileSystem) (file : Path) : Except IoError Executable := do
  match ← fs.find file with
  | .directory .. => throw .noPermission
  | .file content mode _ =>
    if mode &&& 0o111 = 0 then throw .noPermission
    else if content.toList.take 2 = [35, 33] then interpreted fs file content.toList
    else
      match utilityName? (← fs.locate file) with
      | some name => pure (.system name [])
      | none => pure (.unknown (textOf content.toList))

/-- The first file of the candidates that can be started. A file that may not be started
is passed over and decides only when none can. -/
def firstExecutable (fs : FileSystem) : IoError → List Path → Except IoError (Path × Executable)
  | error, [] => .error error
  | error, file :: rest =>
    match executable fs file with
    | .ok found => .ok (file, found)
    | .error .noPermission => firstExecutable fs .noPermission rest
    | .error _ => firstExecutable fs error rest

/-- What runs when a program is started. A bare name is looked for by the search path. -/
def startable (fs : FileSystem) (program : Path) (searchPath : String) :
    Except IoError (Path × Executable) :=
  if program.text = "" then .error .notFound
  else if program.text.contains '/' then (executable fs program).map (program, ·)
  else firstExecutable fs .notFound ((Transpiler.searchDirectories (some searchPath)).map (·.join program))

end ModuleCache.Shell
