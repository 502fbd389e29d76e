import ModuleCache.Loading.Registry
import ModuleCache.Transpiler

/-!
Modules, the errors of loading one, and what the code of one does when it runs: it may
record texts and look at them later, change files, put handlers into slots, and ask the
loader for further loads, and it goes on with what became of that.
-/

namespace ModuleCache

/-- A module that was loaded. It is known by the path of its source, whatever file its
code came from. -/
structure LoadedModule where
  file : Path
  code : String
  deriving DecidableEq, Repr

/-- Why a file could not be loaded. -/
inductive LoadError where
  /-- The file is in progress already. -/
  | cycle (path : Path) (chain : List Path)
  | noHandler (path : Path) (extension : String)
  | read (path : Path) (cause : IoError)
  | compile (error : CompileError)
  | evaluate (path : Path) (message : String)
  deriving DecidableEq, Repr

def LoadError.message : LoadError → String
  | .cycle path chain =>
    s!"load cycle detected at {path.text}: " ++ " -> ".intercalate (chain.map (·.text))
  | .noHandler path extension =>
    s!"no handler registered for '{extension}' files ({path.text})"
  | .read path cause => s!"failed to read {path.text}: {cause.message}"
  | .compile error => error.message
  | .evaluate path message => s!"evaluation of {path.text} failed: {message}"

abbrev Loaded := Except LoadError LoadedModule

/-- What a loader can be asked for. -/
inductive Demand where
  /-- To load a file by the handler of its extension. -/
  | load (file : Path)
  /-- To load a file by a handler, whatever its extension. -/
  | loadBy (handler : Handler) (file : Path)
  /-- To run code as the module of a file. -/
  | execute (code : String) (file : Path)

/-- A file stands for the demand to load it. -/
instance : Coe Path Demand := ⟨.load⟩

def Demand.file : Demand → Path
  | .load file | .loadBy _ file | .execute _ file => file

/-- What code can do besides coming to its end. -/
inductive Deed where
  | record (text : String)
  /-- It looks at what has been recorded. -/
  | consult
  | alter (change : FileSystem → FileSystem)
  /-- It registers a handler, or claims the slot for it. -/
  | assign (claims : Bool) (extension : String) (handler : Handler)
  | ask (demand : Demand)

/-- What code learns from what it does. -/
abbrev Deed.Reply : Deed → Type
  | .record _ | .alter _ => Unit
  | .consult => List String
  | .assign .. => Bool
  | .ask _ => Loaded

inductive Script where
  /-- It comes to its end. -/
  | finish
  /-- It fails. -/
  | fail (error : LoadError)
  /-- It does something and goes on with the reply. -/
  | act (deed : Deed) (next : deed.Reply → Script)

/-- It records a text and goes on. -/
def Script.record (text : String) (next : Script) : Script := .act (.record text) fun _ => next

/-- It has a file loaded and goes on with what became of that. -/
def Script.load (file : Path) (next : Loaded → Script) : Script := .act (.ask file) next

/-- Says what the code of a file does when it runs. -/
abbrev Evaluator := String → Path → Script

end ModuleCache
