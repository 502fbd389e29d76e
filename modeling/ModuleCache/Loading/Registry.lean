import ModuleCache.Extensions

/-!
The table of handlers, one slot per file name extension. Registering overwrites a slot;
a claim locks it, so that nothing that comes later can displace the handler in it.
-/

namespace ModuleCache

inductive PlainHandler where
  /-- Serves the same code for every file. -/
  | fixed (id : String) (code : String)
  /-- Compiles a source whenever it is loaded. -/
  | uncached (extensions : Extensions)
  deriving DecidableEq, Repr

/-- What loads the files of a slot. -/
inductive Handler where
  | plain (handler : PlainHandler)
  /-- The hook with a number, which keeps artifacts. -/
  | hook (index : Nat)
  deriving DecidableEq, Repr

def PlainHandler.id : PlainHandler → String
  | .fixed id _ => id
  | .uncached _ => "uncached"

/-- The name of the hooks. -/
def hookId : String := "roast-cache"

def Handler.id : Handler → String
  | .plain handler => handler.id
  | .hook _ => hookId

/-- What stands under an extension. -/
inductive Slot where
  | registered (handler : Handler)
  | claimed (handler : Handler)
  deriving DecidableEq, Repr

def Slot.handler : Slot → Handler
  | .registered handler | .claimed handler => handler

/-- The slot is locked. -/
def Slot.isClaimed : Slot → Bool
  | .registered _ => false
  | .claimed _ => true

structure Registry where
  slots : List (String × Slot)
  deriving DecidableEq, Repr

namespace Registry

def empty : Registry := ⟨[]⟩

def slot? (r : Registry) (extension : String) : Option Slot := r.slots.lookup extension

/-- The slot of an extension is locked. -/
def isClaimed (r : Registry) (extension : String) : Bool :=
  (r.slot? extension).any (·.isClaimed)

def handler? (r : Registry) (extension : String) : Option Handler :=
  (r.slot? extension).map (·.handler)

def set (r : Registry) (extension : String) (slot : Slot) : Registry :=
  ⟨(extension, slot) :: r.slots.filter (·.1 ≠ extension)⟩

/-- Registers a handler, unless the slot is claimed. -/
def register? (r : Registry) (extension : String) (handler : Handler) : Option Registry :=
  if r.isClaimed extension then none else some (r.set extension (.registered handler))

/-- Claims a slot for a handler, unless it is claimed already. -/
def claim? (r : Registry) (extension : String) (handler : Handler) : Option Registry :=
  if r.isClaimed extension then none else some (r.set extension (.claimed handler))

/-- The extensions that have a slot, in order. -/
def extensions (r : Registry) : List String :=
  (r.slots.map (·.1)).mergeSort fun a b => decide (a ≤ b)

end Registry
end ModuleCache
