import ModuleCache.Loading.InProgress
import ModuleCache.Loading.Module
import ModuleCache.Loading.Registry
import ModuleCache.Placement
import ModuleCache.Progress
import ModuleCache.Store

/-!
The state of a loader: the file system it works on, the table of handlers, the hooks,
and all that it printed, recorded and asked for. A hook compiles the files of one
extension and keeps the artifacts; what handled them before it becomes its fallback.
-/

namespace ModuleCache

structure Counters where
  hits : Nat := 0
  compiles : Nat := 0
  /-- Loads handed to the fallback, whether or not there was one. -/
  fallbacks : Nat := 0
  /-- Compilations whose artifact was not written. -/
  writeFailures : Nat := 0
  /-- Compilations whose artifact was written and whose source map was not. -/
  mapFailures : Nat := 0
  deriving DecidableEq, Repr

structure Hook where
  layout : Layout
  style : Progress.Style
  inProgress : InProgress := .empty
  /-- What loads a file when it cannot. -/
  fallback : Option Handler := none
  /-- It holds the slot of its extension. -/
  isRegistered : Bool := false
  counters : Counters := {}

/-- The extension of the files a hook loads. -/
def Hook.extension (h : Hook) : String := h.layout.extensions.source

structure Session where
  files : FileSystem
  registry : Registry := .empty
  /-- The hooks, each known by its place in the list. -/
  hooks : List Hook := []
  printed : String := ""
  notes : Journal := []
  requests : List Transpiler.Request := []
  records : List String := []

namespace Session

def note (s : Session) (level : Level) (message : String) (fields : List (String × FieldValue)) :
    Session :=
  { s with notes := s.notes ++ [⟨level, message, fields⟩] }

/-- Prints a piece of a progress line. -/
def print (s : Session) (style : Progress.Style) (text : String) : Session :=
  { s with printed := s.printed ++ style.render text }

def modifyHook (s : Session) (index : Nat) (change : Hook → Hook) : Session :=
  { s with hooks := s.hooks.modify index change }

def count (s : Session) (index : Nat) (change : Counters → Counters) : Session :=
  s.modifyHook index fun h => { h with counters := change h.counters }

/-- Adds a hook that holds no slot yet. -/
def addHook (s : Session) (layout : Layout) (style : Progress.Style) : Session :=
  { s with hooks := s.hooks ++ [{ layout, style }] }

/-- Registers a handler and says whether that took effect. -/
def register (s : Session) (extension : String) (handler : Handler) : Session × Bool :=
  match s.registry.register? extension handler with
  | some registry => ({ s with registry }, true)
  | none => (s, false)

/-- Claims a slot and says whether that took effect. -/
def claim (s : Session) (extension : String) (handler : Handler) : Session × Bool :=
  match s.registry.claim? extension handler with
  | some registry => ({ s with registry }, true)
  | none => (s, false)

/-- Somebody else claimed the slot of an extension. -/
structure SlotClaimed where
  extension : String
  deriving DecidableEq, Repr

/-- The text shown for a slot that is claimed. -/
def SlotClaimed.message (e : SlotClaimed) : String :=
  s!"the '{e.extension}' loader slot is already claimed"

/-- The note about a handler that becomes a fallback. -/
def noteFallback (s : Session) : Option Handler → Session
  | none => s
  | some handler =>
    s.note .debug "previous handler kept as fallback" [("fallback", .quoted handler.id)]

/-- Claims the slot of its extension for a hook, and keeps the handler that was there as
its fallback. A hook that holds the slot stays as it is. -/
def install (s : Session) (index : Nat) : Session × Except SlotClaimed Unit :=
  match s.hooks[index]? with
  | none => (s, .ok ())
  | some hook =>
    if hook.isRegistered then (s, .ok ())
    else
      match s.registry.claim? hook.extension (.hook index) with
      | none => (s, .error ⟨hook.extension⟩)
      | some registry =>
        let fallback := s.registry.handler? hook.extension
        let s := { s with registry }.modifyHook index fun h =>
          { h with fallback, isRegistered := true }
        let s := s.note .debug "claimed loader slot"
          [("extension", .quoted hook.extension), ("handler", .quoted hookId)]
        (s.noteFallback fallback, .ok ())

end Session
end ModuleCache
