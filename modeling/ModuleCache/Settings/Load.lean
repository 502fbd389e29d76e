import ModuleCache.FileSystem
import ModuleCache.Settings

/-!
Settings from files. An installation may have a configuration document in its
directory; a document can also be named, and then has to be there.
-/

namespace ModuleCache.Settings

def documentName : String := "roast.toml"

/-- The text of a file that has to be there. -/
def readDocument (fs : FileSystem) (file : Path) : Except Error String :=
  (fs.readText file).mapError fun cause => .unreadable cause.message

/-- The settings of the installation in a directory. Without a document it has the
defaults. -/
def ofDirectory (fs : FileSystem) (directory : Path) (environment : Environment) :
    Except Error Settings := do
  let file := directory.join ⟨documentName⟩
  let text ← if fs.isFile file then readDocument fs file else pure ""
  ofText text directory (.ofEnvironment environment)

/-- The directory of a document; a bare name stands for the current one. -/
def documentDirectory (file : Path) : Path :=
  match file.parent? with
  | some directory => if directory.text = "" then ⟨"."⟩ else directory
  | none => ⟨"."⟩

/-- The settings of a document for the installation in its directory. -/
def ofFile (fs : FileSystem) (file : Path) (environment : Environment) :
    Except Error Settings := do
  let text ← readDocument fs file
  ofText text (documentDirectory file) (.ofEnvironment environment)

end ModuleCache.Settings
