import ModuleCache.Path

/-!
The lexical normal form of a path: no `.`, and `..` only where it cannot be taken
back, as a leading run of a relative path. The file system is not asked, so two
spellings have one normal form even when nothing exists at either.
-/

namespace ModuleCache.Path

/-- One component read against the components kept so far, the last of them first.
`..` takes a name back and is lost at the root. -/
def normalStep (kept : List Component) (c : Component) : List Component :=
  match c, kept with
  | .here, _ => kept
  | .up, .name _ :: rest => rest
  | .up, .root :: _ => kept
  | c, _ => c :: kept

def normalComponents (cs : List Component) : List Component :=
  (cs.foldl normalStep []).reverse

def normalize (p : Path) : Path := ofComponents (normalComponents p.components)

/-- A component that is a directory entry's name. -/
def Component.isName : Component → Bool
  | .name _ => true
  | _ => false

end ModuleCache.Path
