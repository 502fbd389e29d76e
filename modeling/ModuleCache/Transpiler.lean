import ModuleCache.FileSystem
import ModuleCache.Journal
import ModuleCache.SourceMap

/-!
Transpilers and the compilation of one source. Whatever a transpiler does, fail or
crash, comes back as a value. A source map it gives is kept only if it can be read, and
then under the names of the artifact and the source it belongs to.
-/

namespace ModuleCache

namespace Transpiler

structure Request where
  source : String
  file : Path
  generated : String
  sources : List String
  wantsMap : Bool
  deriving DecidableEq, Repr

/-- What a transpiler gives: code, and the text of a source map if it has one. -/
structure Output where
  code : String
  map : Option String
  deriving DecidableEq, Repr

inductive Fault where
  /-- It refuses the source. -/
  | failed (message : String)
  /-- It crashed; its last words may be no text. -/
  | crashed (message : Option String)
  deriving DecidableEq, Repr

/-- What became of a request. A transpiler may change files and leave notes. -/
structure Answer where
  fs : FileSystem
  notes : Journal
  outcome : Except Fault Output

end Transpiler

structure Transpiler where
  name : String
  run : FileSystem → Transpiler.Request → Transpiler.Answer

/-- Why a source could not be compiled. -/
inductive CompileError where
  | transpile (path : Path) (message : String)
  | crashed (path : Path) (message : String)
  deriving DecidableEq, Repr

def CompileError.message : CompileError → String
  | .transpile path message => s!"failed to compile {path.text}: {message}"
  | .crashed path message => s!"transpiler panicked while compiling {path.text}: {message}"

namespace Transpiler

/-- The error for a fault in compiling a file. -/
def Fault.toError (file : Path) : Fault → CompileError
  | .failed message => .transpile file message
  | .crashed message => .crashed file (message.getD "non-string panic payload")

/-- The request for a source that becomes the artifact `generated`. -/
def Request.ofSource (source : String) (file : Path) (generated : String) : Request :=
  ⟨source, file, generated, [file.baseName], true⟩

/-- The text of a source map under the names of a request's artifact and sources. -/
def annotateMap (request : Request) (raw : String) : Except SourceMap.Error String := do
  pure ((← SourceMap.ofJson raw).annotate request.generated request.sources).toJson

/-- The note about a source map that is dropped. -/
def unusableMapNote (file : Path) (error : SourceMap.Error) : Note :=
  ⟨.warn, "discarding unusable source map",
    [("path", .plain file.text), ("err", .plain error.message)]⟩

/-- The output for a request with its map under the right names, if the map is usable,
and the note that it is not. -/
def Output.annotated (output : Output) (request : Request) : Output × Journal :=
  match output.map.map (annotateMap request) with
  | none => (⟨output.code, none⟩, [])
  | some (.ok map) => (⟨output.code, some map⟩, [])
  | some (.error e) => (⟨output.code, none⟩, [unusableMapNote request.file e])

structure Compiled where
  fs : FileSystem
  notes : Journal
  outcome : Except CompileError Output

def compile (t : Transpiler) (fs : FileSystem) (request : Request) : Compiled :=
  let answer := t.run fs request
  match answer.outcome with
  | .error fault => ⟨answer.fs, answer.notes, .error (fault.toError request.file)⟩
  | .ok output =>
    let (output, notes) := output.annotated request
    ⟨answer.fs, answer.notes ++ notes, .ok output⟩

end Transpiler
end ModuleCache
