import ModuleCache.Journal
import ModuleCache.Text.Quote

/-!
Log lines. A note becomes a line that begins with its level in five columns and ends
with its fields; notes below a threshold are left out.
-/

namespace ModuleCache

/-- The name of a level in five columns. -/
def Level.column : Level → String
  | .debug => "DEBUG"
  | .info => " INFO"
  | .warn => " WARN"
  | .error => "ERROR"

/-- The rank of a level; more important levels have higher ranks. -/
def Level.rank : Level → Nat
  | .debug => 0
  | .info => 1
  | .warn => 2
  | .error => 3

/-- The number of the colour of a level. -/
def Level.hue : Level → Nat
  | .debug => 34
  | .info => 32
  | .warn => 33
  | .error => 31

namespace CommandLine

def valueText : FieldValue → String
  | .plain text => text
  | .quoted text => Text.quote text
  | .number value => toString value

/-- A text in a style given by a number, if there are styles. -/
def paint (styled : Bool) (style : Nat) (text : String) : String :=
  if styled then s!"\x1b[{style}m{text}\x1b[0m" else text

/-- A field as it stands in a line. -/
def fieldText (styled : Bool) (name : String) (value : FieldValue) : String :=
  paint styled 3 name ++ paint styled 2 "=" ++ valueText value

def noteLine (styled : Bool) (n : Note) : String :=
  " ".intercalate
    ([paint styled n.level.hue n.level.column, n.message] ++
      n.fields.map fun (name, value) => fieldText styled name value) ++ "\n"

/-- Which notes become lines, and whether these are styled. -/
structure Log where
  /-- The least important level that is shown; none shows nothing. -/
  threshold : Option Level
  styled : Bool

def Log.lines (log : Log) (notes : Journal) : String :=
  String.join <| (notes.filter fun n => log.threshold.any fun t => t.rank ≤ n.level.rank).map
    (noteLine log.styled)

end CommandLine
end ModuleCache
