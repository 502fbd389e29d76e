import ModuleCache.Path

/-!
The files whose load has started and not finished. A file that is asked for again while
it is in progress is refused, which is how cycles come to light.
-/

namespace ModuleCache

/-- The files in progress, the outermost first. -/
structure InProgress where
  active : List Path
  deriving DecidableEq, Repr

namespace InProgress

def empty : InProgress := ⟨[]⟩

/-- A path names a file in progress. -/
def contains (s : InProgress) (p : Path) : Bool := s.active.any (·.same p)

def depth (s : InProgress) : Nat := s.active.length

/-- Adds a file, or refuses and shows the files in progress. -/
def enter (s : InProgress) (p : Path) : Except (List Path) InProgress :=
  if s.contains p then .error s.active else .ok ⟨s.active ++ [p]⟩

/-- Takes a file out again: the last one that the path names. -/
def leave (s : InProgress) (p : Path) : InProgress :=
  ⟨(s.active.reverse.eraseP (·.same p)).reverse⟩

end InProgress
end ModuleCache
