import ModuleCache.CommandLine.Arguments
import ModuleCache.CommandLine.Discovery
import ModuleCache.CommandLine.Log
import ModuleCache.CommandLine.Place
import ModuleCache.Path.Absolute
import ModuleCache.Runtime
import ModuleCache.Settings.Load
import ModuleCache.Transpiler.External

/-!
The program: it loads files through the cache, fills the cache for a whole tree, shows
where artifacts belong, and leads positions in generated code back to their sources.
What it does is a function of its arguments, its environment and the files it finds.
-/

namespace ModuleCache.CommandLine

/-- What a run printed and complained about so far. -/
structure Transcript where
  out : String := ""
  err : String := ""

def Transcript.complain (t : Transcript) (text : String) : Transcript :=
  { t with err := t.err ++ text }

/-- The transcript with more that was printed. -/
def Transcript.print (t : Transcript) (text : String) : Transcript :=
  { t with out := t.out ++ text }

def programName : String := "roast"

def version : String := "0.1.0"

def errorLine (message : String) : String := s!"{programName}: {message}\n"

structure Outcome where
  code : Nat
  transcript : Transcript
  fs : FileSystem

structure Start where
  /-- The machine that the transpiler runs on. -/
  machine : Machine
  fs : FileSystem
  environment : Environment
  options : Options
  log : Log

namespace Start

def directory (s : Start) : Path := s.fs.directory

/-- A path of the command line as seen from the root. -/
def absolute (s : Start) (p : Path) : Except String Path :=
  if p.text = "" then .error "cannot make an empty path absolute"
  else .ok (p.absolute s.directory)

def fail (s : Start) (t : Transcript) (message : String) : Outcome :=
  ⟨1, t.complain (errorLine message), s.fs⟩

/-- A run that crashes. What the process says of that itself is not described. -/
def crash (s : Start) (t : Transcript) : Outcome := ⟨101, t, s.fs⟩

/-- The settings as the configuration document gives them. -/
def documentSettings (s : Start) : Except String Settings :=
  match s.options.config with
  | some file => do
    let file ← s.absolute ⟨file⟩
    (Settings.ofFile s.fs file s.environment).mapError (·.message)
  | none => (Settings.ofDirectory s.fs s.directory s.environment).mapError (·.message)

/-- The settings with an absolute installation root, under the colour option. -/
def settings (s : Start) : Except String Settings := do
  let settings ← s.documentSettings
  let installRoot ← s.absolute settings.installRoot
  let color :=
    match s.options.color with
    | some .always => .always
    | some .never => .never
    | _ => settings.color
  pure { settings with installRoot, color }

/-- Brings a loader up with the transpiler that the search path leads to. The code of
the files is not run. -/
def runtime (s : Start) (settings : Settings) (t : Transcript) :
    Except InitError Runtime × Transcript :=
  let located :=
    Transpiler.ofCommand s.machine s.fs settings.transpiler (s.environment.lookup "PATH")
      s.environment
  let style := if s.options.quiet then .silent else settings.progressStyle
  let (runtime, _, notes) :=
    Runtime.init settings located (fun _ _ => .finish) style s.fs none
  (runtime, t.complain (s.log.lines notes))

/-- Loads a file. As no code is run, no load is inside another one. -/
def load (s : Start) (runtime : Runtime) (t : Transcript) (file : Path) :
    Runtime × Transcript × Loaded :=
  let (session, loaded) := (Session.require runtime.host 1 runtime.session file).getD
    (runtime.session, .error (.noHandler file ""))
  let t := (t.print session.printed).complain (s.log.lines session.notes)
  let t :=
    match loaded with
    | .ok _ => t
    | .error e => t.complain (errorLine e.message)
  ({ runtime with session := { session with printed := "", notes := [] } }, t, loaded)

/-- The counts that a run of the loader ends with. -/
def finishNote (counters : Counters) : Note :=
  ⟨.debug, "load finished", [("hits", .number counters.hits),
    ("compiles", .number counters.compiles),
    ("fallbacks", .number counters.fallbacks)]⟩

/-- Loads files one after the other. A file that cannot be loaded does not stop the
others; a path that cannot be made absolute does. -/
def loadAll (s : Start) (emits : Bool) :
    List String → Runtime → Transcript → (failures : Nat) → Outcome
  | [], runtime, t, failures =>
    let note := finishNote (Runtime.counters runtime.session)
    ⟨if failures = 0 then 0 else 1, t.complain (s.log.lines [note]), runtime.session.files⟩
  | file :: rest, runtime, t, failures =>
    match s.absolute ⟨file⟩ with
    | .error message => { s.fail t message with fs := runtime.session.files }
    | .ok path =>
      match s.load runtime t path with
      | (runtime, t, .ok module) =>
        let t := if emits then t.print (module.code ++ "\n") else t
        s.loadAll emits rest runtime t failures
      | (runtime, t, .error _) => s.loadAll emits rest runtime t (failures + 1)

def runLoad (s : Start) (files : List String) (emits : Bool) : Outcome :=
  match s.settings with
  | .error message => s.fail {} message
  | .ok settings =>
    match s.runtime settings {} with
    | (.error e, t) => s.fail t e.message
    | (.ok runtime, t) => s.loadAll emits files runtime t 0

/-- Loads the files of a tree and counts those that cannot be loaded. -/
def warmAll (s : Start) : List Path → Runtime → Transcript → (failures : Nat) →
    Runtime × Transcript × Nat
  | [], runtime, t, failures => (runtime, t, failures)
  | file :: rest, runtime, t, failures =>
    match s.load runtime t file with
    | (runtime, t, .ok _) => s.warmAll rest runtime t failures
    | (runtime, t, .error _) => s.warmAll rest runtime t (failures + 1)

/-- The line that sums a run up. -/
def resultLine (files : Nat) (counters : Counters) (failures : Nat) : String :=
  s!"   Result: {files} file(s), {counters.compiles} compiled, {counters.hits} cached, {failures} failed\n"

/-- Loads the sources that were found below a directory. -/
def warmFound (s : Start) (settings : Settings) (directory : Path) (files : List Path) : Outcome :=
  if files.isEmpty then
    let warning := s!"warning: no tracked source files found in {directory.text}\n"
    ⟨0, if s.options.quiet then {} else { err := warning }, s.fs⟩
  else
    match s.runtime settings {} with
    | (.error e, t) => s.fail t e.message
    | (.ok runtime, t) =>
      let (runtime, t, failures) := s.warmAll files runtime t 0
      let line := resultLine files.length (Runtime.counters runtime.session) failures
      ⟨if failures = 0 then 0 else 1, if s.options.quiet then t else t.complain line,
        runtime.session.files⟩

/-- The task of loading all sources below a directory, which is the installation root
when none is named. -/
def runWarm (s : Start) (directory : Option String) : Outcome :=
  match s.settings with
  | .error message => s.fail {} message
  | .ok settings =>
    match directory.elim (.ok settings.installRoot) (s.absolute ⟨·⟩) with
    | .error message => s.fail {} message
    | .ok directory =>
      match discover settings s.fs directory with
      | .error e => s.fail {} e.message
      | .ok files => s.warmFound settings directory files

/-- The lines that show where an artifact belongs. -/
def placementLines (p : Placement) : String :=
  s!"cache:    {p.cache.text}\nmap:      {p.map.text}\nroot:     {p.root.text}\nrelative: {p.relative.text}\n"

/-- The task of showing where the artifacts of a file belong. -/
def runPaths (s : Start) (file : String) : Outcome :=
  let ran : Except String Outcome := do
    let settings ← s.settings
    let layout := settings.layout
    let source ← s.absolute ⟨file⟩
    let warning :=
      s!"warning: {source.text} does not have the tracked '.{layout.extensions.source}' suffix\n"
    let t : Transcript := if layout.extensions.isTracked source then {} else { err := warning }
    pure ⟨0, t.print (placementLines (layout.place source)), s.fs⟩
  match ran with
  | .ok outcome => outcome
  | .error message => s.fail {} message

/-- The task of leading a position back to the source. -/
def runTrace (s : Start) (position : String) : Outcome :=
  let ran : Except String Outcome := do
    let place ← (Place.parse position).mapError (·.message)
    let settings ← s.settings
    let chain := Runtime.chainFor settings.layout
    let frame : Frame := ⟨none, ← s.absolute ⟨place.file⟩, place.line, place.column⟩
    let t : Transcript := { err := s.log.lines (chain.lookupNotes s.fs frame) }
    match chain.lookup s.fs frame with
    | some (.ok origin) => pure ⟨0, t.print (origin.place ++ "\n"), s.fs⟩
    | some (.error _) => pure (s.crash t)
    | none => pure (s.fail t s!"no mapping for {position}")
  match ran with
  | .ok outcome => outcome
  | .error message => s.fail {} message

def perform (s : Start) : Task → Outcome
  | .load files emits => s.runLoad files emits
  | .warm directory => s.runWarm directory
  | .paths file => s.runPaths file
  | .trace position => s.runTrace position

end Start

/-- The variable that sets which notes are shown. -/
def logVariable : String := "RUST_LOG"

def levelOf? (word : String) : Option (Option Level) :=
  match word with
  | "off" => some none
  | "error" => some (some .error)
  | "warn" => some (some .warn)
  | "info" => some (some .info)
  | "debug" | "trace" => some (some .debug)
  | _ => none

/-- Which notes are shown: as the environment says, else as the options do. -/
def logFor (environment : Environment) (options : Options) : Log where
  threshold :=
    match (environment.lookup logVariable).bind levelOf? with
    | some threshold => threshold
    | none => some (if options.quiet then .error else if options.verbose then .debug else .warn)
  styled := options.color = some .always

/-- The text that tells how the program is used. -/
def usage : String :=
  "Compile cache for transpiled modules\n\n" ++
  s!"Usage: {programName} [OPTIONS] <COMMAND>\n\n" ++
  "Commands:\n  load   Load files through the cache, compiling whatever is stale\n" ++
  "  warm   Precompile every tracked file below a directory\n" ++
  "  paths  Show the artifact locations for a source file\n" ++
  "  trace  Translate a generated position to its original source position\n"

/-- Runs the program. Without an outcome the command line was unusable. -/
def run (machine : Machine) (fs : FileSystem) (environment : Environment)
    (arguments : List String) : Option Outcome :=
  (read? arguments).map fun
    | .version => ⟨0, { out := s!"{programName} {version}\n" }, fs⟩
    | .help => ⟨0, { out := usage }, fs⟩
    | .run options task =>
      Start.perform ⟨machine, fs, environment, options, logFor environment options⟩ task

end ModuleCache.CommandLine
