import ModuleCache.SourceMap
import ModuleCache.Text.Split

/-!
The mappings of a source map. Their compact form has a group of segments per generated
line; every number in a segment but the generated column is a difference to the last
one of its kind, on whatever line that stood. Decoding sums the differences up, and a
look-up takes the last mapping at or before a place on its line.
-/

namespace ModuleCache.SourceMap

/-- The place in a source that generated code comes from. -/
structure Origin where
  /-- The index of the source. -/
  source : UInt32
  /-- The place in that source. -/
  position : Position
  /-- The index of a name, if one is recorded. -/
  name : Option UInt32
  deriving DecidableEq, Repr

/-- A place in the generated code, and where it comes from, if anywhere. -/
structure Mapping where
  generated : Position
  origin : Option Origin
  deriving DecidableEq, Repr

/-- The sums of the differences read so far, one for each kind of number. -/
structure Sums where
  column : Int
  source : Int
  sourceLine : Int
  sourceColumn : Int
  name : Int
  deriving DecidableEq, Repr

def Sums.zero : Sums := ⟨0, 0, 0, 0, 0⟩

/-- The sums at the start of the next generated line. -/
def Sums.newLine (s : Sums) : Sums := { s with column := 0 }

/-- The sums behind a segment, and the mapping it gives. The counts of numbers are one,
four and five, and every sum has to fit into a word. -/
def Sums.advance (s : Sums) (line : UInt32) : List Int → Option (Sums × Mapping)
  | [column] => do
    let s := { s with column := s.column + column }
    let column ← word32? s.column
    pure (s, ⟨⟨line, column⟩, none⟩)
  | [column, source, sourceLine, sourceColumn] => do
    let s := { s with
      column := s.column + column
      source := s.source + source
      sourceLine := s.sourceLine + sourceLine
      sourceColumn := s.sourceColumn + sourceColumn }
    let column ← word32? s.column
    let source ← word32? s.source
    let sourceLine ← word32? s.sourceLine
    let sourceColumn ← word32? s.sourceColumn
    pure (s, ⟨⟨line, column⟩, some ⟨source, ⟨sourceLine, sourceColumn⟩, none⟩⟩)
  | [column, source, sourceLine, sourceColumn, name] => do
    let s := Sums.mk (s.column + column) (s.source + source) (s.sourceLine + sourceLine)
      (s.sourceColumn + sourceColumn) (s.name + name)
    let column ← word32? s.column
    let source ← word32? s.source
    let sourceLine ← word32? s.sourceLine
    let sourceColumn ← word32? s.sourceColumn
    let name ← word32? s.name
    pure (s, ⟨⟨line, column⟩, some ⟨source, ⟨sourceLine, sourceColumn⟩, some name⟩⟩)
  | _ => none

/-- Reads the segments of one generated line. -/
def decodeLine (line : Nat) : Sums → List String → Except Error (Sums × List Mapping)
  | s, [] => .ok (s, [])
  | s, segment :: segments =>
    match Vlq.decode segment with
    | .error cause => .error (.segment line segment cause)
    | .ok numbers =>
      match s.advance (UInt32.ofNat line) numbers with
      | none => .error (.malformed line segment)
      | some (s, mapping) => do
        let (s, mappings) ← decodeLine line s segments
        pure (s, mapping :: mappings)

/-- Reads the groups of segments from a generated line on. -/
def decodeLines (line : Nat) : Sums → List (List String) → Except Error (List Mapping)
  | _, [] => .ok []
  | s, segments :: rest => do
    let (s, mappings) ← decodeLine line s.newLine segments
    let later ← decodeLines (line + 1) s rest
    pure (mappings ++ later)

/-- The segments of each generated line. An empty segment says nothing. -/
def segments (mappings : String) : List (List String) :=
  (Text.split ';' mappings.toList).map fun line =>
    ((Text.split ',' line).filter (· ≠ [])).map String.ofList

/-- The mappings of a source map in the order of their generated places, equal places
in the order in which they were written. -/
def decode (m : SourceMap) : Except Error (List Mapping) := do
  let mappings ← decodeLines 0 .zero (segments m.mappings)
  pure (mappings.mergeSort fun a b => a.generated.le b.generated)

/-- A place in a source, with the names that the map has for it. -/
structure Location where
  source : String
  position : Position
  name : Option String
  deriving DecidableEq, Repr

/-- The last mapping of a sorted list at or before a place. -/
def governing (mappings : List Mapping) (place : Position) : Option Mapping :=
  (mappings.takeWhile (·.generated.le place)).getLast?

/-- Where the code at a generated place comes from: what the last mapping at or before
the place says, if it stands on the same line and names a source of the map. -/
def lookup (m : SourceMap) (place : Position) : Except Error (Option Location) := do
  let mappings ← m.decode
  pure do
    let mapping ← governing mappings place
    if mapping.generated.line ≠ place.line then none
    let origin ← mapping.origin
    let source ← m.sources[origin.source.toNat]?
    pure ⟨m.sourcePath source, origin.position, origin.name.bind (m.names[·.toNat]?)⟩

end ModuleCache.SourceMap
