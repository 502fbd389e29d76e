import ModuleCache.Vlq
import ModuleCache.Position
import ModuleCache.Json.Value

/-!
Source maps of version 3: documents that say, for places in generated code, which
place of which source they come from. This module holds the document with its JSON
form; `SourceMap.Mappings` reads the places out of it.
-/

namespace ModuleCache

/-- A source map document of version 3. -/
structure SourceMap where
  file : Option String
  /-- What is put in front of every source's name. -/
  sourceRoot : Option String
  sources : List String
  /-- The texts of the sources, in the order of `sources`. -/
  sourcesContent : Option (List (Option String))
  names : List String
  /-- The mappings, in their compact form. -/
  mappings : String
  deriving DecidableEq, Repr

namespace SourceMap

/-- The only version that is understood. -/
def version : Nat := 3

/-- Why a text gives no source map, or a source map no mappings. -/
inductive Error where
  /-- The text is no JSON form of a source map. -/
  | json
  | unsupportedVersion (version : Nat)
  /-- A segment holds no list of numbers. -/
  | segment (line : Nat) (text : String) (cause : Vlq.Error)
  /-- A segment has the wrong count of numbers, or one of its sums leaves its range. -/
  | malformed (line : Nat) (text : String)
  deriving DecidableEq, Repr

def Error.message : Error → String
  | .json => "invalid source map JSON"
  | .unsupportedVersion version => s!"unsupported source map version {version}"
  | .segment line text cause =>
    s!"bad mapping segment '{text}' on generated line {line}: {cause.message}"
  | .malformed line text => s!"malformed mapping segment '{text}' on generated line {line}"

/-! ### Reading -/

/-- The fields of a document, in the order in which an array gives them. -/
inductive Field where
  | version
  | file
  | sourceRoot
  | sources
  | sourcesContent
  | names
  | mappings
  deriving DecidableEq, Repr

def Field.key : Field → String
  | .version => "version"
  | .file => "file"
  | .sourceRoot => "sourceRoot"
  | .sources => "sources"
  | .sourcesContent => "sourcesContent"
  | .names => "names"
  | .mappings => "mappings"

/-- All fields, in order. -/
def fields : List Field :=
  [.version, .file, .sourceRoot, .sources, .sourcesContent, .names, .mappings]

def field? (key : String) : Option Field := fields.find? (·.key == key)

/-- A whole number written without sign, point or exponent, below `2^32`. -/
def readVersion : Json.Value → Option Nat
  | .number literal =>
    if literal.all Char.isDigit then
      let value := literal.foldl (fun n c => 10 * n + (c.toNat - '0'.toNat)) 0
      if value < UInt32.size then some value else none
    else none
  | _ => none

def readString : Json.Value → Option String
  | .text content => content
  | _ => none

/-- A quoted text or `null`. -/
def readOptional : Json.Value → Option (Option String)
  | .null => some none
  | value => (readString value).map some

/-- An array whose items are read by `item`. -/
def readList {α : Type} (item : Json.Value → Option α) : Json.Value → Option (List α)
  | .array items => items.mapM item
  | _ => none

/-- An array of texts and `null`s, or `null`. -/
def readContents : Json.Value → Option (Option (List (Option String)))
  | .null => some none
  | value => (readList readOptional value).map some

/-- What a document gives for its fields; a field that is absent, or of the wrong
kind, makes the document none. -/
def ofFields? (given : List (Field × Json.Value)) : Option (Nat × SourceMap) := do
  let version ← (given.lookup .version).bind readVersion
  let file ← ((given.lookup .file).map readOptional).getD (some none)
  let sourceRoot ← ((given.lookup .sourceRoot).map readOptional).getD (some none)
  let sources ← ((given.lookup .sources).map (readList readString)).getD (some [])
  let sourcesContent ← ((given.lookup .sourcesContent).map readContents).getD (some none)
  let names ← ((given.lookup .names).map (readList readString)).getD (some [])
  let mappings ← (given.lookup .mappings).bind readString
  pure (version, ⟨file, sourceRoot, sources, sourcesContent, names, mappings⟩)

/-- The known members of an object. Every key has to be a text, other keys are passed
over, and no known key may come twice. -/
def knownMembers : List (Option String × Json.Value) → Option (List (Field × Json.Value))
  | [] => some []
  | (none, _) :: _ => none
  | (some key, value) :: rest => do
    let known ← knownMembers rest
    match field? key with
    | none => pure known
    | some field =>
      if (known.lookup field).isSome then none else pure ((field, value) :: known)

/-- The document a JSON value stands for, with its version. An array gives the fields
in order. -/
def ofValue? : Json.Value → Option (Nat × SourceMap)
  | .object members => do ofFields? (← knownMembers members)
  | .array items =>
    if items.length ≤ fields.length then ofFields? (fields.zip items) else none
  | _ => none

def ofJson (text : String) : Except Error SourceMap :=
  match (Json.parse? text).bind ofValue? with
  | none => .error .json
  | some (given, map) =>
    if given = version then .ok map else .error (.unsupportedVersion given)

/-! ### Writing -/

/-- Items in brackets, with commas between them. -/
def writeList {α : Type} (item : α → List Char) (items : List α) : List Char :=
  '[' :: ((items.map item).intersperse [',']).flatten ++ [']']

/-- A quoted text or `null`. -/
def writeOptional : Option String → List Char
  | none => "null".toList
  | some text => Json.quote text

/-- The JSON form of the fields that are present. -/
def writeFields (m : SourceMap) : List (Field × List Char) :=
  [(.version, version.repr.toList)] ++
    (m.file.map fun file => (Field.file, Json.quote file)).toList ++
    (m.sourceRoot.map fun root => (Field.sourceRoot, Json.quote root)).toList ++
    [(.sources, writeList Json.quote m.sources)] ++
    (m.sourcesContent.map fun contents =>
      (Field.sourcesContent, writeList writeOptional contents)).toList ++
    [(.names, writeList Json.quote m.names), (.mappings, Json.quote m.mappings)]

/-- The compact JSON form of a source map; absent fields are left out. -/
def toJson (m : SourceMap) : String :=
  String.ofList <| '\x7b' ::
    ((m.writeFields.map fun (field, value) =>
      Json.quote field.key ++ ':' :: value).intersperse [',']).flatten ++ ['\x7d']

/-! ### Naming -/

/-- The same map under another generated name, with other names for its sources. -/
def annotate (m : SourceMap) (file : String) (sources : List String) : SourceMap :=
  { m with file := some file, sources, sourceRoot := none }

/-- A source's name with the source root in front of it. -/
def sourcePath (m : SourceMap) (source : String) : String :=
  match m.sourceRoot with
  | none => source
  | some root =>
    if root = "" then source
    else
      String.ofList ((root.toList.reverse.dropWhile (· == '/')).reverse ++ '/' :: source.toList)

end SourceMap
end ModuleCache
