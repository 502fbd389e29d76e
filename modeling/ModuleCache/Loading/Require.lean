import ModuleCache.Loading.Session

/-!
Loading files. A file goes to the handler of its extension. A hook serves a fresh
artifact if there is one that can be read; else it compiles the source and keeps the
result, whether or not that can be written; and a source that cannot be read or
compiled goes to its fallback. The code is then run under the path of the source, and
may have further files loaded before it comes to its end.
-/

namespace ModuleCache

/-- What a loader works with: the transpiler, and what code does when it runs. -/
structure Host where
  transpiler : Transpiler
  evaluator : Evaluator

/-- A way to meet demands; it may give up when loads are nested too deep. -/
abbrev Require := Session → Demand → Option (Session × Loaded)

namespace Session

/-- Has the transpiler carry out a request. -/
def compile (s : Session) (t : Transpiler) (request : Transpiler.Request) :
    Session × Except CompileError Transpiler.Output :=
  let compiled := t.compile s.files request
  ({ s with
      files := compiled.fs
      notes := s.notes ++ compiled.notes
      requests := s.requests ++ [request] },
    compiled.outcome)

/-- Registers a handler or claims the slot for it, and says whether that took effect. -/
def assign (s : Session) (claims : Bool) (extension : String) (handler : Handler) :
    Session × Bool :=
  if claims then s.claim extension handler else s.register extension handler

/-- Does what code wants done, its demands by `require`. -/
def act (require : Require) (s : Session) : (deed : Deed) → Option (Session × deed.Reply)
  | .record text => some ({ s with records := s.records ++ [text] }, ())
  | .consult => some (s, s.records)
  | .alter change => some ({ s with files := change s.files }, ())
  | .assign claims extension handler => some (s.assign claims extension handler)
  | .ask demand => require s demand

/-- Runs a script, whose demands are met by `require`. -/
def run (require : Require) : Script → Session → Option (Session × Except LoadError Unit)
  | .finish, s => some (s, .ok ())
  | .fail error, s => some (s, .error error)
  | .act deed next, s => do
    let (s, reply) ← s.act require deed
    run require (next reply) s

/-- Runs code as the module of a file. -/
def execute (host : Host) (require : Require) (s : Session) (code : String) (file : Path) :
    Option (Session × Loaded) := do
  let (s, ended) ← run require (host.evaluator code file) s
  pure (s, ended.map fun () => ⟨file, code⟩)

/-- The file whose details a note gives. -/
def fileField (file : Path) : List (String × FieldValue) := [("file", .plain file.text)]

/-- The code of a fresh artifact, if it can be read. -/
def serve (s : Session) (index : Nat) (file : Path) (place : Placement) :
    Session × Option String :=
  if Store.isFresh s.files file place.cache then
    match Store.read s.files place.cache with
    | .ok code =>
      ((s.count index fun c => { c with hits := c.hits + 1 }).note .debug
        "serving cached artifact" (fileField file), some code)
    | .error e =>
      (s.note .debug "fresh artifact unreadable; recompiling" [("err", .plain e.message)], none)
  else (s.note .debug "artifact missing or stale" (fileField file), none)

/-- Writes what was compiled and counts what could not be written. -/
def persist (s : Session) (index : Nat) (place : Placement) (output : Transpiler.Output) :
    Session :=
  let written := Store.write s.files place.cache place.map output.code output.map
  let s := { s with files := written.fs, notes := s.notes ++ written.notes }
  match written.outcome with
  | .error e =>
    (s.count index fun c => { c with writeFailures := c.writeFailures + 1 }).note .warn
      "compiled artifact not persisted; using in-memory output" [("err", .plain e.message)]
  | .ok mapWritten =>
    if output.map.isSome && !mapWritten then
      s.count index fun c => { c with mapFailures := c.mapFailures + 1 }
    else s

/-- Compiles a source for a hook, prints how that goes, and keeps the artifact. -/
def build (s : Session) (t : Transpiler) (index : Nat) (style : Progress.Style) (file : Path)
    (place : Placement) : Session × Except LoadError String :=
  match s.files.readText file with
  | .error cause => (s, .error (.read file cause))
  | .ok source =>
    let s := s.print style (Progress.opening place.relative.text)
    match s.compile t (.ofSource source file place.cache.baseName) with
    | (s, .error e) => (s.print style Progress.failed, .error (.compile e))
    | (s, .ok output) =>
      let s := s.print style Progress.done
      let s := s.count index fun c => { c with compiles := c.compiles + 1 }
      (s.persist index place output, .ok output.code)

/-- The code for a file: that of its artifact, else that of its source. -/
def obtain (s : Session) (t : Transpiler) (index : Nat) (hook : Hook) (file : Path) :
    Session × Except LoadError String :=
  let place := hook.layout.place file
  match s.serve index file place with
  | (s, some code) => (s, .ok code)
  | (s, none) => s.build t index hook.style file place

/-- Loads a file by a plain handler. -/
def loadPlain (host : Host) (require : Require) (s : Session) (handler : PlainHandler)
    (file : Path) : Option (Session × Loaded) :=
  match handler with
  | .fixed _ code => execute host require s code file
  | .uncached extensions =>
    match s.files.readText file with
    | .error cause => some (s, .error (.read file cause))
    | .ok source =>
      let request := .ofSource source file (extensions.toOutput file).baseName
      match s.compile host.transpiler request with
      | (s, .error e) => some (s, .error (.compile e))
      | (s, .ok output) => execute host require s output.code file

/-- Hands a file that is being loaded to a handler. A hook loads it from inside that load. -/
def handOn (host : Host) (require : Require) (s : Session) (handler : Handler) (file : Path) :
    Option (Session × Loaded) :=
  match handler with
  | .plain handler => loadPlain host require s handler file
  | .hook _ => require s (.loadBy handler file)

/-- Loads a file for a hook that could not, by its fallback. -/
def fallBack (host : Host) (require : Require) (s : Session) (index : Nat)
    (fallback : Option Handler) (file : Path) (error : LoadError) :
    Option (Session × Loaded) :=
  let s := s.count index fun c => { c with fallbacks := c.fallbacks + 1 }
  match fallback with
  | none => some (s, .error error)
  | some handler =>
    let s := s.note .warn "cached load failed; using fallback handler"
      [("err", .plain error.message), ("fallback", .quoted handler.id)]
    handOn host require s handler file

/-- Loads a file that a hook has entered among those in progress. -/
def loadEntered (host : Host) (require : Require) (s : Session) (index : Nat) (hook : Hook)
    (file : Path) : Option (Session × Loaded) :=
  match s.obtain host.transpiler index hook file with
  | (s, .ok code) => execute host require s code file
  | (s, .error error) => fallBack host require s index hook.fallback file error

/-- Loads a file by a hook. A file in progress is refused; any other is in progress
until its load is over, however that ends. -/
def loadHook (host : Host) (require : Require) (s : Session) (index : Nat) (hook : Hook)
    (file : Path) : Option (Session × Loaded) :=
  match hook.inProgress.enter file with
  | .error chain => some (s, .error (.cycle file chain))
  | .ok entered => do
    let s := s.modifyHook index fun h => { h with inProgress := entered }
    let (s, loaded) ← loadEntered host require s index hook file
    pure (s.modifyHook index fun h => { h with inProgress := h.inProgress.leave file }, loaded)

/-- The error for a file that nobody loads. -/
def noHandler (file : Path) : LoadError := .noHandler file (file.extension?.getD "")

/-- Loads a file by a handler. -/
def loadBy (host : Host) (require : Require) (s : Session) (handler : Handler) (file : Path) :
    Option (Session × Loaded) :=
  match handler with
  | .plain handler => loadPlain host require s handler file
  | .hook index =>
    match s.hooks[index]? with
    | none => some (s, .error (noHandler file))
    | some hook => loadHook host require s index hook file

/-- The handler of a file's extension. -/
def handlerFor? (s : Session) (file : Path) : Option Handler :=
  s.registry.handler? (file.extension?.getD "")

/-- Meets a demand. -/
def dispatch (host : Host) (require : Require) (s : Session) (demand : Demand) :
    Option (Session × Loaded) :=
  match demand with
  | .load file =>
    match s.handlerFor? file with
    | none => some (s, .error (noHandler file))
    | some handler => loadBy host require s handler file
  | .loadBy handler file => loadBy host require s handler file
  | .execute code file => execute host require s code file

/-- Meets a demand, with at most `depth` loads and executions inside one another; nothing
is said about what a deeper nesting comes to. -/
def require (host : Host) : Nat → Require
  | 0 => fun _ _ => none
  | depth + 1 => dispatch host (require host depth)

/-- Runs code as the module of a file; what it asks for is nested at most `depth` deep. -/
def executeAt (host : Host) (depth : Nat) (s : Session) (code : String) (file : Path) :
    Option (Session × Loaded) :=
  execute host (require host depth) s code file

end Session
end ModuleCache
