import ModuleCache.Path

/-!
Making a path absolute against a directory, by its text alone: idle pieces go, `..`
stays because what it leads to depends on what is there, and so does a slash at the
end, which asks for a directory.
-/

namespace ModuleCache.Path

/-- Exactly two slashes stand at the start. Such a start is kept as it is. -/
def isDoubleRooted (p : Path) : Bool :=
  match p.text.toList with
  | '/' :: '/' :: '/' :: _ => false
  | '/' :: '/' :: _ => true
  | _ => false

/-- What the components of a path are put behind to make it absolute, and those
components. -/
def anchor (p directory : Path) : Path × List Component :=
  match p.components with
  | .root :: rest => (if p.isDoubleRooted then ⟨"//"⟩ else ⟨"/"⟩, rest)
  | .here :: rest => (directory, rest)
  | components => (directory, components)

/-- The path as seen from the root, for one that is not empty. -/
def absolute (p directory : Path) : Path :=
  let (start, components) := p.anchor directory
  let joined := components.foldl (fun q c => q.join (ofComponent c)) start
  if p.text.toList.getLast? = some '/' then joined.join ⟨""⟩ else joined

end ModuleCache.Path
