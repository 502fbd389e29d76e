import ModuleCache.Loading.Require
import ModuleCache.Settings
import ModuleCache.Trace.Chain
import ModuleCache.Transpiler.Locator

/-!
Bringing a loader up under given settings. The handler that compiles on every load is
registered first and then displaced by a hook, which keeps it as its fallback. Stack
traces are led back by a chain that blocks the retriever of the transpiler and reads
the source maps of the artifacts.
-/

namespace ModuleCache

def Settings.layout (s : Settings) : Layout :=
  .ofRoot s.installRoot s.cacheDir s.container s.extensions

/-- How progress lines look under the settings when they do not go to a terminal. -/
def Settings.progressStyle (s : Settings) : Progress.Style :=
  if s.daemonized then .plain
  else
    match s.color with
    | .always => .styled
    | .never | .auto => .plain

/-- A transpiler that was looked for, with the notes that the search left. -/
abbrev Located := Except Transpiler.LocateError Transpiler × Journal

/-- Why a loader cannot be brought up. -/
inductive InitError where
  | transpiler (cause : Transpiler.LocateError)
  | slotClaimed (cause : Session.SlotClaimed)
  deriving DecidableEq, Repr

def InitError.message : InitError → String
  | .transpiler cause => s!"no transpiler found: {cause.message}"
  | .slotClaimed cause => cause.message

structure Runtime where
  settings : Settings
  host : Host
  session : Session
  chain : Trace.Chain

namespace Runtime

def hook : Nat := 0

/-- The chain that reads the source maps of a layout's artifacts. -/
def chainFor (layout : Layout) : Trace.Chain :=
  let chain := Trace.Chain.empty.block Trace.builtinId
  (chain.install? (Trace.cacheRetriever layout)).getD chain

/-- The session at the start: the plain handler registered, and a hook beside it. -/
def sessionAtStart (settings : Settings) (style : Progress.Style) (files : FileSystem) : Session :=
  let session : Session := { files }
  let (session, _) := session.register settings.extensions.source
    (.plain (.uncached settings.extensions))
  session.addHook settings.layout style

/-- The note about a loader that is ready. -/
def readyNote (settings : Settings) : List (String × FieldValue) :=
  [("extension", .plain settings.extensions.source), ("cache_dir", .plain settings.cacheDir),
    ("root", .plain settings.installRoot.text)]

/-- Brings a loader up and publishes its chain, with the notes left on the way. Without
a transpiler nothing happens. -/
def init (settings : Settings) (located : Located) (evaluator : Evaluator)
    (style : Progress.Style) (files : FileSystem) (published : Trace.Published) :
    Except InitError Runtime × Trace.Published × Journal :=
  match located with
  | (.error cause, notes) => (.error (.transpiler cause), published, notes)
  | (.ok transpiler, notes) =>
    let notes := notes ++ [⟨.debug, "transpiler ready", [("transpiler", .quoted transpiler.name)]⟩]
    match (sessionAtStart settings style files).install hook with
    | (session, .error cause) => (.error (.slotClaimed cause), published, notes ++ session.notes)
    | (session, .ok ()) =>
      let chain := chainFor settings.layout
      let (published, isFirst) := Trace.publish published chain
      let session :=
        if isFirst then session
        else session.note .debug "process translator chain already installed" []
      let session := session.note .info "cache loader installed" (readyNote settings)
      (.ok ⟨settings, ⟨transpiler, evaluator⟩, { session with notes := [] }, chain⟩, published,
        notes ++ session.notes)

/-- The session before anything is loaded, with what its hook has counted. -/
def counters (session : Session) : Counters :=
  (session.hooks[hook]?.map (·.counters)).getD {}

end Runtime
end ModuleCache
