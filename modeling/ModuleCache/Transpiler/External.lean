import ModuleCache.Machine
import ModuleCache.Settings.Sections
import ModuleCache.Text.Lossy
import ModuleCache.Transpiler
import ModuleCache.Transpiler.Locator
import ModuleCache.Transpiler.MapComment

/-!
Transpilers that are programs. A request is written to a new scratch directory, the
program is run on it with the options that say what is wanted, and code and source map
are read back from there. When the request is answered, the directory is removed.
-/

namespace ModuleCache

namespace Transpiler

/-- A transpiler that is a program, with the arguments it is always given. -/
structure External where
  program : Path
  args : List String
  /-- The environment that the program runs in. -/
  environment : Environment

namespace External

/-- The directory that the program is told to write to. -/
def outDirectory (scratch : Path) : Path := scratch.join ⟨"out"⟩

/-- Where the source of a request is written. -/
def inputFile (scratch : Path) (request : Request) : Path :=
  scratch.join ⟨request.sources.headD "input"⟩

/-- The arguments that a program is given. -/
def arguments (e : External) (scratch : Path) (request : Request) : List String :=
  e.args ++ ["--compile", "--bare"] ++ (if request.wantsMap then ["--map"] else []) ++
    ["--output", (outDirectory scratch).text, (inputFile scratch request).text]

/-- Writes the source and creates the directory for what comes of it. -/
def stage (fs : FileSystem) (scratch : Path) (request : Request) :
    FileSystem × Except IoError Unit :=
  match fs.writeText (inputFile scratch request) request.source with
  | .error e => (fs, .error e)
  | .ok fs =>
    match fs.createDirectory (outDirectory scratch) with
    | .error e => (fs, .error e)
    | .ok fs => (fs, .ok ())

/-- Where the source map may be: behind the name of the artifact, or in place of its
extension. -/
def mapFiles (out : Path) (generated : String) : List Path :=
  let stem := (Path.stem? ⟨generated⟩).getD ""
  [out.join ⟨generated ++ ".map"⟩, out.join ⟨stem ++ ".map"⟩]

/-- Reads what a program left behind for a request. -/
def collect (fs : FileSystem) (out : Path) (request : Request) : Except Fault Output :=
  match fs.readText (out.join ⟨request.generated⟩) with
  | .error e => .error (.failed s!"transpiler produced no {request.generated}: {e.message}")
  | .ok code =>
    let map :=
      if request.wantsMap then
        (mapFiles out request.generated).findSome? fun file => (fs.readText file).toOption
      else none
    .ok ⟨stripMapComments code, map⟩

/-- What a program that ended says about a request: its complaints if it failed, and
what it left behind if not. -/
def judge (e : External) (out : Path) (request : Request) (finished : Machine.Finished) :
    Except Fault Output :=
  if finished.ending = .exited 0 then collect finished.fs out request
  else
    let complaint := Text.trim (Text.readLossy finished.complained)
    .error <| .failed <|
      if complaint.isEmpty then s!"{e.program.text} exited with {finished.ending.message}"
      else String.ofList complaint

/-- The file system without the scratch directory, as far as that can be removed. -/
def clean (fs : FileSystem) (scratch : Path) : FileSystem :=
  (fs.removeTree scratch).toOption.getD fs

/-- The note about a program that is started. -/
def startNote (e : External) (request : Request) : Note :=
  ⟨.debug, "running transpiler",
    [("program", .plain e.program.text), ("file", .plain request.file.text)]⟩

def carryOut (m : Machine) (e : External) (fs : FileSystem) (request : Request) : Answer :=
  match m.createTemporary fs e.environment with
  | .error cause => ⟨fs, [], .error (.failed s!"cannot create scratch directory: {cause}")⟩
  | .ok (fs, scratch) =>
    match stage fs scratch request with
    | (fs, .error cause) =>
      ⟨clean fs scratch, [], .error (.failed s!"cannot stage source: {cause.message}")⟩
    | (fs, .ok ()) =>
      let notes := [e.startNote request]
      match m.launch fs e.program (e.arguments scratch request) e.environment with
      | .error cause =>
        ⟨clean fs scratch, notes,
          .error (.failed s!"cannot run {e.program.text}: {cause.message}")⟩
      | .ok finished =>
        ⟨clean finished.fs scratch, notes, e.judge (outDirectory scratch) request finished⟩

end External

/-- The transpiler that has a program carry out its requests on a machine. -/
def ofProgram (m : Machine) (e : External) : Transpiler := ⟨"command", e.carryOut m⟩

/-- The transpiler that a command names, found by a search path, with the note about
where it was found. -/
def ofCommand (m : Machine) (fs : FileSystem) (command : Command) (searchPath : Option String)
    (environment : Environment) : Except LocateError Transpiler × Journal :=
  match locate fs command.program searchPath with
  | .error e => (.error e, [])
  | .ok program =>
    (.ok (ofProgram m ⟨program, command.args, environment⟩),
      [⟨.debug, "transpiler located", [("program", .plain program.text)]⟩])

end Transpiler
end ModuleCache
