import ModuleCache.Path
import ModuleCache.Toml.Document

/-!
The sections of a configuration document. Every section and every field may be left
out, so an empty document stands for the defaults; a section that is not known makes
the document invalid, a field that is not known is passed over.
-/

namespace ModuleCache

inductive ColorMode where
  /-- On a terminal. -/
  | auto
  | always
  | never
  deriving DecidableEq, Repr

def ColorMode.word : ColorMode → String
  | .auto => "auto"
  | .always => "always"
  | .never => "never"

def ColorMode.ofWord? (word : String) : Option ColorMode :=
  [ColorMode.auto, .always, .never].find? (·.word == word)

/-- An external transpiler: a program, and the arguments it is always given. -/
structure Command where
  program : String
  args : List String
  deriving DecidableEq, Repr

/-- The values of a configuration document, with the defaults of those left out. -/
structure Sections where
  cacheDir : String := ".roast-cache"
  source : String := "coffee"
  /-- The extension of artifacts. -/
  output : String := "js"
  map : String := "map"
  /-- The name of the directory that holds packages. -/
  container : String := "node_modules"
  /-- The installation root, if the document fixes it. -/
  installRoot : Option Path := none
  transpiler : Command := ⟨"coffee", []⟩
  color : ColorMode := .auto
  /-- The process runs detached from a terminal. -/
  daemonized : Bool := false
  deriving DecidableEq, Repr

namespace Sections

/-- The values that a section gives by name. An array gives the values of the fields in
their order, and a date gives none. -/
def fieldsOf? (keys : List String) : Toml.Value → Option Toml.Entries
  | .table _ entries => some entries
  | .inline entries => some entries
  | .array items => some (keys.zip items)
  | .tables items => some (keys.zip (items.map (Toml.Value.table .header)))
  | .datetime => some []
  | _ => none

def readText : Toml.Value → Option String
  | .text content => some content
  | _ => none

def readBool : Toml.Value → Option Bool
  | .bool value => some value
  | _ => none

def readTexts : Toml.Value → Option (List String)
  | .array items => items.mapM readText
  | _ => none

/-- A table or array that holds nothing. -/
def isEmpty : Toml.Value → Bool
  | .table _ entries => entries.isEmpty
  | .inline entries => entries.isEmpty
  | .array items => items.isEmpty
  | .tables items => items.isEmpty
  | _ => false

/-- The section is a table in braces. -/
def inBraces : Toml.Value → Bool
  | .inline _ => true
  | _ => false

/-- A colour mode: its word, or a table whose first key is its word and holds nothing.
A table in braces, or in a section in braces, may have no second key. -/
def readColor (inBraces : Bool) : Toml.Value → Option ColorMode
  | .text word => ColorMode.ofWord? word
  | .inline [(word, value)] => if isEmpty value then ColorMode.ofWord? word else none
  | .table _ ((word, value) :: rest) =>
    if isEmpty value ∧ (!inBraces || rest.isEmpty) then ColorMode.ofWord? word else none
  | _ => none

/-- The value of a field, or its default when the section leaves it out. -/
def field {α : Type} (fields : Toml.Entries) (key : String) (read : Toml.Value → Option α)
    (default : α) : Option α :=
  match fields.lookup key with
  | none => some default
  | some value => read value

/-- The sections with what one section of a document says. -/
def readSection (s : Sections) (name : String) (value : Toml.Value) : Option Sections := do
  match name with
  | "cache" =>
    let fields ← fieldsOf? ["dir"] value
    pure { s with cacheDir := ← field fields "dir" readText s.cacheDir }
  | "extensions" =>
    let fields ← fieldsOf? ["source", "output", "map"] value
    pure { s with
      source := ← field fields "source" readText s.source
      output := ← field fields "output" readText s.output
      map := ← field fields "map" readText s.map }
  | "layout" =>
    let fields ← fieldsOf? ["package_container", "install_root"] value
    pure { s with
      container := ← field fields "package_container" readText s.container
      installRoot := ← field fields "install_root" (fun v => (readText v).map (some ⟨·⟩)) none }
  | "transpiler" =>
    let fields ← fieldsOf? ["program", "args"] value
    let program ← field fields "program" readText s.transpiler.program
    let args ← field fields "args" readTexts s.transpiler.args
    pure { s with transpiler := ⟨program, args⟩ }
  | "output" =>
    let fields ← fieldsOf? ["color", "daemonized"] value
    pure { s with
      color := ← field fields "color" (readColor (inBraces value)) s.color
      daemonized := ← field fields "daemonized" readBool s.daemonized }
  | _ => none

/-- The sections that a document's entries give. -/
def ofEntries? (entries : Toml.Entries) : Option Sections :=
  entries.foldlM (fun s (name, value) => readSection s name value) {}

/-- The sections of the document that a text holds. -/
def ofToml? (text : String) : Option Sections := do ofEntries? (← Toml.parse? text)

end Sections
end ModuleCache
