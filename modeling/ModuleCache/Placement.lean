import ModuleCache.Extensions
import ModuleCache.Path.Normal

/-!
Where the artifact of a source belongs. A source inside a package, a directory right
below the package container, is cached at that package; any other source is cached at
the installation root. Below the cache directory an artifact keeps the place its
source has below that root, and a source from elsewhere its whole name.
-/

namespace ModuleCache

/-- The layout of the directories that hold sources and artifacts. -/
structure Layout where
  /-- The normal form of the installation root. -/
  installRoot : Path
  cacheDir : String
  /-- The name of the directory that holds packages. -/
  container : String
  /-- The extensions of sources, artifacts and maps. -/
  extensions : Extensions
  deriving Repr

structure Placement where
  cache : Path
  map : Path
  /-- The directory whose cache holds the artifact. -/
  root : Path
  /-- The place of the source below that directory. -/
  relative : Path
  deriving DecidableEq, Repr

namespace Layout

/-- A layout, its installation root brought into normal form. -/
def ofRoot (installRoot : Path) (cacheDir container : String) (extensions : Extensions) : Layout :=
  ⟨installRoot.normalize, cacheDir, container, extensions⟩

/-- The components up to and including the innermost package, and those behind it.
A package is what follows the container and has at least one component behind it. -/
def packageBoundary? (container : String) :
    List Path.Component → Option (List Path.Component × List Path.Component)
  | [] => none
  | c :: rest =>
    match packageBoundary? container rest with
    | some (inside, below) => some (c :: inside, below)
    | none =>
      match rest with
      | package :: next :: more =>
        if c.text = container then some ([c, package], next :: more) else none
      | _ => none

/-- The components of a source below the installation root. A source elsewhere keeps
all its names. -/
def belowInstallRoot (l : Layout) (source : Path) : List Path.Component :=
  ((source.componentsBelow? l.installRoot).getD source.components).filter (·.isName)

/-- The root of the cache that holds a source's artifact, and the source's place below
it, for a source in normal form. -/
def home (l : Layout) (source : Path) : Path × Path :=
  match packageBoundary? l.container source.components with
  | some (inside, below) => (Path.ofComponents inside, Path.ofComponents below)
  | none => (l.installRoot, Path.ofComponents (l.belowInstallRoot source))

/-- Where the artifact of `source` belongs. -/
def place (l : Layout) (source : Path) : Placement :=
  let (root, relative) := l.home source.normalize
  let cache := l.extensions.toOutput ((root.join ⟨l.cacheDir⟩).join relative)
  ⟨cache, l.extensions.toMap cache, root, relative⟩

end Layout
end ModuleCache
