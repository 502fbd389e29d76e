import ModuleCache.FileSystem
import ModuleCache.Settings

/-!
Finding the sources below a directory. Hidden directories and cache directories are
not entered; what was found comes in the order of paths.
-/

namespace ModuleCache.CommandLine

/-- A directory with a name is not entered. -/
def isSkipped (cacheDir name : String) : Bool :=
  name = cacheDir || name.toList.head? = some '.'

/-- The sources below a directory, at most `depth` directories down. -/
def sourcesBelow (settings : Settings) (fs : FileSystem) :
    Nat → Path → Except IoError (List Path)
  | 0, _ => .ok []
  | depth + 1, directory => do
    let names ← fs.names directory
    let found ← names.mapM fun name =>
      let path := directory.join ⟨name⟩
      if fs.isDirectory path then
        if isSkipped settings.cacheDir name then .ok []
        else sourcesBelow settings fs depth path
      else if settings.extensions.isTracked path then .ok [path]
      else .ok []
    pure found.flatten

/-- The sources below a directory, in order. No tree is deeper than it has entries. -/
def discover (settings : Settings) (fs : FileSystem) (directory : Path) :
    Except IoError (List Path) :=
  (sourcesBelow settings fs (fs.nodes.length + 1) directory).map (·.mergeSort Path.le)

end ModuleCache.CommandLine
