import ModuleCache.Extensions
import ModuleCache.Settings.Overrides
import ModuleCache.Settings.Sections

/-!
The settings that an installation works under: the values of its configuration
document and of the environment, put together and checked.
-/

namespace ModuleCache

/-- The text is one name of a directory entry, so joining it never leaves a directory
or goes down more than one level. -/
def IsEntryName (name : String) : Prop :=
  match Path.components ⟨name⟩ with
  | [.name _] => True
  | _ => False

instance (name : String) : Decidable (IsEntryName name) := by
  unfold IsEntryName
  split <;> infer_instance

structure Settings where
  cacheDir : String
  /-- The extensions of sources, artifacts and maps. -/
  extensions : Extensions
  /-- The name of the directory that holds packages. -/
  container : String
  installRoot : Path
  transpiler : Command
  color : ColorMode
  /-- The process runs detached from a terminal. -/
  daemonized : Bool
  cacheDir_name : IsEntryName cacheDir
  container_name : IsEntryName container
  program_not_blank : Text.isBlankText transpiler.program = false
  deriving Repr

namespace Settings

inductive Error where
  /-- The configuration document cannot be read. -/
  | unreadable (cause : String)
  /-- The configuration document is not valid. -/
  | invalidDocument
  /-- The extensions do not fit together. -/
  | extensions (cause : Extensions.Error)
  /-- The cache directory is not one entry's name. -/
  | cacheDir (name : String)
  /-- The package container is not one entry's name. -/
  | container (name : String)
  /-- The transpiler has no program. -/
  | program
  deriving DecidableEq, Repr

/-- The complaint about a text that is not one entry's name. -/
def notEntryName (what name : String) : String :=
  s!"validation error: {what} '{name}' must be a single relative directory name"

/-- The text shown for an error. What is wrong with an invalid document is not kept. -/
def Error.message : Error → String
  | .unreadable cause => s!"failed to read configuration: {cause}"
  | .invalidDocument => "failed to parse configuration: "
  | .extensions cause => s!"invalid extensions: {cause.message}"
  | .cacheDir name => notEntryName "cache directory" name
  | .container name => notEntryName "package container" name
  | .program => "validation error: transpiler program must not be empty"

/-- The installation root that a document fixes, seen from the directory `base`; that
directory itself when it fixes none. -/
def rootFrom (base : Path) : Option Path → Path
  | some root => base.join root
  | none => base

/-- The settings of a document's sections under an environment, for an installation in
the directory `base`. -/
def ofSections (sections : Sections) (base : Path) (overrides : Overrides) :
    Except Error Settings := do
  let extensions ← (Extensions.ofWords sections.source sections.output sections.map).mapError
    Error.extensions
  let cacheDir := overrides.cacheDir.getD sections.cacheDir
  if hDir : IsEntryName cacheDir then
    if hContainer : IsEntryName sections.container then
      if hProgram : Text.isBlankText sections.transpiler.program = false then
        pure {
          cacheDir, extensions
          container := sections.container
          installRoot := rootFrom base sections.installRoot
          transpiler := sections.transpiler
          color := sections.color
          daemonized := sections.daemonized || overrides.daemonized
          cacheDir_name := hDir
          container_name := hContainer
          program_not_blank := hProgram }
      else throw .program
    else throw (.container sections.container)
  else throw (.cacheDir cacheDir)

/-- The settings of a configuration document under an environment. -/
def ofText (text : String) (base : Path) (overrides : Overrides) : Except Error Settings :=
  match Sections.ofToml? text with
  | none => .error .invalidDocument
  | some sections => ofSections sections base overrides

def standard (installRoot : Path) : Settings where
  cacheDir := ".roast-cache"
  extensions := .standard
  container := "node_modules"
  installRoot := installRoot
  transpiler := ⟨"coffee", []⟩
  color := .auto
  daemonized := false
  cacheDir_name := by decide
  container_name := by decide
  program_not_blank := by decide

end Settings
end ModuleCache
