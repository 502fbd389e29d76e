import ModuleCache.FileSystem
import ModuleCache.Journal
import ModuleCache.Placement
import ModuleCache.SourceMap.Mappings
import ModuleCache.Trace.Frame

/-!
Chains of retrievers, which lead the frames of a stack trace back to the sources. A
retriever finds the source map for a file or declines; the first one whose map says
where a frame comes from decides. A chain holds no two retrievers of one name and none
whose name it blocks. A map may lead to the last line or column that a word can number
from zero; counted from one that is no word any more, and the look-up crashes.
-/

namespace ModuleCache.Trace

structure Retrieved where
  /-- The file the map belongs to. Its sources are looked for in the directory of it. -/
  url : Path
  map : String
  deriving DecidableEq, Repr

/-- Finds source maps by the name of a file, or declines and leaves notes. -/
structure Retriever where
  id : String
  retrieve : FileSystem → Path → Except Journal Retrieved

/-- The name of the retriever that reads the maps of artifacts. -/
def cacheId : String := "roast-cache"

/-- The name of the retriever that transpilers bring along. It knows nothing of
artifacts, and its answers about them are wrong. -/
def builtinId : String := "transpiler-builtin"

/-- A source map could not be read. -/
structure MapReadError where
  path : Path
  cause : IoError
  deriving DecidableEq, Repr

/-- The text shown for a map that could not be read. -/
def MapReadError.message (e : MapReadError) : String :=
  s!"cannot read source map {e.path.text}: {e.cause.message}"

/-- Reads the source map that belongs to the artifact of a file. -/
def readMap (layout : Layout) (fs : FileSystem) (file : Path) : Except MapReadError Retrieved :=
  let path := (layout.place file).map
  match fs.readText path with
  | .ok map => .ok ⟨file, map⟩
  | .error cause => .error ⟨path, cause⟩

/-- The retriever that reads the maps of artifacts. It declines for files that have
none. -/
def cacheRetriever (layout : Layout) : Retriever where
  id := cacheId
  retrieve fs file :=
    if layout.extensions.isTracked file then
      (readMap layout fs file).mapError fun e =>
        [⟨.debug, "declining trace translation", [("err", .plain e.message)]⟩]
    else .error []

/-- The path of a source that a map names. -/
def sourceFile (url : Path) (source : String) : Path :=
  if Path.isAbsolute ⟨source⟩ then ⟨source⟩
  else
    match url.parent? with
    | some directory => directory.join ⟨source⟩
    | none => ⟨source⟩

/-- One less, but not less than zero. -/
def zeroBased (n : UInt32) : UInt32 := if n = 0 then 0 else n - 1

/-- A line or a column, counted from one, does not fit into a word. That ends the process. -/
structure Overflow where
  deriving DecidableEq, Repr

/-- One more, if that is a word. -/
def oneBased (n : UInt32) : Except Overflow UInt32 :=
  if n.toNat + 1 < UInt32.size then .ok (n + 1) else .error {}

/-- The frame at a place in a source, the place counted from zero. -/
def frameAt (function : Option String) (file : Path) (position : Position) :
    Except Overflow Frame := do
  let line ← oneBased position.line
  let column ← oneBased position.column
  pure ⟨function, file, line, column⟩

/-- The frame in the source that a map gives for a frame in generated code. -/
def originOf (frame : Frame) (found : Retrieved) :
    Except SourceMap.Error (Option (Except Overflow Frame)) := do
  let map ← SourceMap.ofJson found.map
  let location ← map.lookup ⟨zeroBased frame.line, zeroBased frame.column⟩
  pure <| location.map fun location =>
    frameAt frame.function (sourceFile found.url location.source) location.position

/-- What a retriever says about a frame: where it comes from, if that can be numbered, or
nothing and notes. -/
def Retriever.answer (r : Retriever) (fs : FileSystem) (frame : Frame) :
    Except Journal (Except Overflow Frame) := do
  let found ← r.retrieve fs frame.file
  match originOf frame found with
  | .ok (some origin) => pure origin
  | .ok none => throw []
  | .error e =>
    throw [⟨.debug, "retriever map unusable",
      [("id", .quoted r.id),
        ("err", .plain s!"cannot parse source map for {frame.file.text}: {e.message}")]⟩]

/-- Retrievers in the order in which they are asked, and the names that are refused. -/
structure Chain where
  retrievers : List Retriever
  blocked : List String

namespace Chain

def empty : Chain := ⟨[], []⟩

/-- The names of the retrievers in order. -/
def ids (c : Chain) : List String := c.retrievers.map (·.id)

/-- Refuses a name from now on, and drops the retriever that has it. -/
def block (c : Chain) (id : String) : Chain :=
  ⟨c.retrievers.filter (·.id ≠ id), id :: c.blocked⟩

/-- The name is refused, or a retriever has it. -/
def refuses (c : Chain) (id : String) : Bool := c.blocked.contains id || c.ids.contains id

/-- Adds a retriever behind the others, unless its name is refused. -/
def install? (c : Chain) (r : Retriever) : Option Chain :=
  if c.refuses r.id then none else some { c with retrievers := c.retrievers ++ [r] }

/-- Adds a retriever in front of the others, unless its name is refused. -/
def installFront? (c : Chain) (r : Retriever) : Option Chain :=
  if c.refuses r.id then none else some { c with retrievers := r :: c.retrievers }

/-- The first source map that is found for a file. -/
def retrieve (c : Chain) (fs : FileSystem) (file : Path) : Option Retrieved :=
  c.retrievers.findSome? fun r => (r.retrieve fs file).toOption

/-- Where a frame comes from, by the first retriever that says so. -/
def lookup (c : Chain) (fs : FileSystem) (frame : Frame) : Option (Except Overflow Frame) :=
  c.retrievers.findSome? fun r => (r.answer fs frame).toOption

/-- The notes left by those who are asked about a frame. -/
def lookupNotes (c : Chain) (fs : FileSystem) (frame : Frame) : Journal :=
  go c.retrievers
where
  /-- The notes of the retrievers up to the first that says where the frame comes from. -/
  go : List Retriever → Journal
    | [] => []
    | r :: rest =>
      match r.answer fs frame with
      | .ok _ => []
      | .error notes => notes ++ go rest

/-- The frame that a frame comes from, or the frame itself when nobody knows. -/
def originOrSelf (c : Chain) (fs : FileSystem) (frame : Frame) : Except Overflow Frame :=
  (c.lookup fs frame).getD (.ok frame)

/-- A message, and under it the frames that the given ones come from. -/
def formatTrace (c : Chain) (fs : FileSystem) (message : String) (frames : List Frame) :
    Except Overflow String :=
  frames.foldlM (fun text frame => do
    let origin ← c.originOrSelf fs frame
    pure (text ++ "\n    " ++ origin.render)) message

end Chain

/-- The chain that a process publishes, if it did so yet. -/
abbrev Published := Option Chain

/-- Publishes a chain, unless one is published already, and says whether it did. -/
def publish (published : Published) (chain : Chain) : Published × Bool :=
  match published with
  | none => (some chain, true)
  | some first => (some first, false)

end ModuleCache.Trace
