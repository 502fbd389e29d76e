import ModuleCache.Path

/-!
The three file name extensions of a cache: that of the sources it compiles, that of
the artifacts it keeps and that of their source maps. They are bare words, and no two
of them are equal, so an artifact can never be mistaken for its source or its map.
-/

namespace ModuleCache

/-- What an extension of the triple is for. -/
inductive Role where
  | source
  | output
  | map
  deriving DecidableEq, Repr

def Role.word : Role → String
  | .source => "source"
  | .output => "output"
  | .map => "map"

/-- Not empty, and free of dots and separators. -/
def IsBare (extension : String) : Prop :=
  extension.toList ≠ [] ∧ ∀ c ∈ extension.toList, c ≠ '.' ∧ c ≠ '/' ∧ c ≠ '\\'

instance (extension : String) : Decidable (IsBare extension) :=
  @instDecidableAnd _ _ instDecidableNot (List.decidableBAll _ extension.toList)

/-- The extensions of sources, artifacts and maps, without their dots. -/
structure Extensions where
  source : String
  output : String
  map : String
  source_bare : IsBare source
  output_bare : IsBare output
  map_bare : IsBare map
  source_ne_output : source ≠ output
  source_ne_map : source ≠ map
  output_ne_map : output ≠ map
  deriving DecidableEq, Repr

namespace Extensions

/-- Why three words are no extension triple. -/
inductive Error where
  | empty (role : Role)
  | malformed (role : Role) (value : String)
  | collision (first second : Role) (value : String)
  deriving DecidableEq, Repr

def Error.message : Error → String
  | .empty role => s!"the {role.word} extension must not be empty"
  | .malformed role value =>
    s!"the {role.word} extension '{value}' must be a bare suffix without '.' or separators"
  | .collision first second value =>
    s!"the {first.word} and {second.word} extensions are both '{value}'"

/-- Checks that one extension is a bare word. -/
def checkBare (role : Role) (value : String) : Except Error (PLift (IsBare value)) :=
  if h : IsBare value then .ok ⟨h⟩
  else if value = "" then .error (.empty role)
  else .error (.malformed role value)

def checkDistinct (first second : Role) (a b : String) : Except Error (PLift (a ≠ b)) :=
  if h : a = b then .error (.collision first second a) else .ok ⟨h⟩

/-- The triple of three words, each checked by itself before any two are compared. -/
def ofWords (source output map : String) : Except Error Extensions := do
  let ⟨sourceBare⟩ ← checkBare .source source
  let ⟨outputBare⟩ ← checkBare .output output
  let ⟨mapBare⟩ ← checkBare .map map
  let ⟨sourceOutput⟩ ← checkDistinct .source .output source output
  let ⟨sourceMap⟩ ← checkDistinct .source .map source map
  let ⟨outputMap⟩ ← checkDistinct .output .map output map
  pure ⟨source, output, map, sourceBare, outputBare, mapBare, sourceOutput, sourceMap, outputMap⟩

/-- The triple used when nothing else is configured. -/
def standard : Extensions where
  source := "coffee"
  output := "js"
  map := "map"
  source_bare := by decide
  output_bare := by decide
  map_bare := by decide
  source_ne_output := by decide
  source_ne_map := by decide
  output_ne_map := by decide

/-- The path names a source the cache compiles. -/
def isTracked (e : Extensions) (p : Path) : Bool := p.extension? == some e.source

/-- The path with extension `new` when it has extension `old`, else itself. -/
def swap (old new : String) (p : Path) : Path :=
  if p.extension? = some old then p.withExtension new else p

/-- The artifact's name for a source's name. -/
def toOutput (e : Extensions) (p : Path) : Path := swap e.source e.output p

/-- The map's name for an artifact's name. -/
def toMap (e : Extensions) (p : Path) : Path := swap e.output e.map p

end Extensions
end ModuleCache
