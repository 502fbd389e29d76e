import ModuleCache.Text.Split

/-!
Slash-separated path names. A path keeps the text it was written as; its meaning is
the list of its components, in which repeated slashes, a trailing slash and inner
`.` pieces do not show. Two paths name the same place exactly when their components
are equal, and every operation below is explained by what it does to them.
-/

namespace ModuleCache

/-- A path name, as written. -/
structure Path where
  text : String
  deriving DecidableEq, Repr, Inhabited

namespace Path

inductive Component where
  | root
  /-- A leading `.`. -/
  | here
  /-- `..` -/
  | up
  | name (text : String)
  deriving DecidableEq, Repr

def Component.text : Component → String
  | .root => "/"
  | .here => "."
  | .up => ".."
  | .name text => text

/-- The rank of a kind of component in the order of paths. -/
def Component.rank : Component → Nat
  | .root => 0
  | .here => 1
  | .up => 2
  | .name _ => 3

/-- Kinds of components in order of rank; names by their characters. -/
protected def Component.compare (a b : Component) : Ordering :=
  match a, b with
  | .name a, .name b => compareOfLessAndEq a b
  | a, b => compare a.rank b.rank

/-- The pieces of the text between its slashes. -/
def pieces (p : Path) : List (List Char) := Text.split '/' p.text.toList

/-- A piece that names nothing: empty, between two slashes or at an end, or `.`. -/
def isIdle (piece : List Char) : Bool := piece == [] || piece == ['.']

/-- The component a piece that is not idle stands for. -/
def componentOf (piece : List Char) : Component :=
  if piece = ['.', '.'] then .up else .name (String.ofList piece)

/-- The components of the pieces behind the first one. -/
def inner (pieces : List (List Char)) : List Component :=
  (pieces.filter (!isIdle ·)).map componentOf

/-- What a path means. An empty first piece in front of others is the leading slash,
and only as the first piece `.` is a component. -/
def components (p : Path) : List Component :=
  match p.pieces with
  | [] => []
  | first :: rest =>
    if first = [] then (if rest = [] then [] else .root :: inner rest)
    else if first = ['.'] then .here :: inner rest
    else componentOf first :: inner rest

/-- The two paths name the same place. -/
def same (a b : Path) : Bool := a.components == b.components

/-- The order of paths: component by component, a path before its extensions. -/
def compareComponents : List Component → List Component → Ordering
  | [], [] => .eq
  | [], _ :: _ => .lt
  | _ :: _, [] => .gt
  | a :: as, b :: bs => (Component.compare a b).then (compareComponents as bs)

/-- `a` stands at or before `b` in the order of paths. -/
protected def le (a b : Path) : Bool :=
  (compareComponents a.components b.components).isLE

def isAbsolute (p : Path) : Bool := p.text.toList.head? == some '/'

/-- `b` seen from the directory `a`. An absolute `b` stands for itself. -/
def join (a b : Path) : Path :=
  if b.isAbsolute then b
  else if a.text.toList.getLast?.all (· == '/') then ⟨a.text ++ b.text⟩
  else ⟨a.text ++ "/" ++ b.text⟩

def ofComponent (c : Component) : Path := ⟨c.text⟩

/-- The path written as the given components, without any idle piece. -/
def ofComponents (cs : List Component) : Path :=
  cs.foldl (fun p c => p.join (ofComponent c)) ⟨""⟩

/-- The piece of the last component, and the pieces in front of it. -/
def lastPiece? (p : Path) : Option (List (List Char) × List Char) :=
  match p.pieces.reverse.dropWhile isIdle with
  | last :: before => some (before.reverse, last)
  | [] => if p.pieces.head? = some ['.'] then some ([], ['.']) else none

/-- The directory that leading pieces name, written without idle pieces at its end. -/
def directoryText (before : List (List Char)) : String :=
  match before.reverse.dropWhile isIdle, before with
  | last :: earlier, _ => String.ofList (Text.join '/' (last :: earlier).reverse)
  | [], [] => ""
  | [], first :: _ => if first = [] then "/" else String.ofList first

/-- The path without its last component. The root and the empty path have none. -/
def parent? (p : Path) : Option Path :=
  p.lastPiece?.map fun (before, _) => ⟨directoryText before⟩

/-- The last component, when it is a name. -/
def fileName? (p : Path) : Option String :=
  match p.lastPiece? with
  | some (_, last) =>
    if last = ['.'] ∨ last = ['.', '.'] then none else some (String.ofList last)
  | none => none

/-- The last component, or the empty text when it is no name. -/
def baseName (p : Path) : String := p.fileName?.getD ""

/-- A file name cut at its last dot. A name that starts with its only dot, or has
none, is all stem. -/
def splitExtension (name : List Char) : List Char × Option (List Char) :=
  match Text.splitLast? '.' name with
  | none => (name, none)
  | some (stem, extension) => if stem = [] then (name, none) else (stem, some extension)

/-- What stands behind the last dot of the file name. -/
def extension? (p : Path) : Option String := do
  let name ← p.fileName?
  let extension ← (splitExtension name.toList).2
  pure (String.ofList extension)

/-- What stands before the last dot of the file name. -/
def stem? (p : Path) : Option String :=
  p.fileName?.map fun name => String.ofList (splitExtension name.toList).1

/-- The file name `name` with another extension. What is left of a name with the stem
`.` once its extension is taken off is `..`, which can take no extension. -/
def renameExtension (name : List Char) (isLast : Bool) (extension : String) : List Char :=
  let stem := (splitExtension name).1
  if stem = ['.'] ∧ isLast then ['.', '.'] else stem ++ '.' :: extension.toList

/-- The path, whose file name has an extension, with another extension. What followed
the file name, slashes and `.` pieces, is dropped. A path without a file name stays as
it is. -/
def withExtension (p : Path) (extension : String) : Path :=
  match p.lastPiece? with
  | some (before, last) =>
    if last = ['.'] ∨ last = ['.', '.'] then p
    else
      let name := renameExtension last (p.pieces.length = before.length + 1) extension
      ⟨String.ofList (Text.join '/' (before ++ [name]))⟩
  | none => p

/-- The path with `name` in place of its file name, or below it when it has none. -/
def withFileName (p : Path) (name : String) : Path :=
  match p.fileName? with
  | some _ => (p.parent?.getD ⟨""⟩).join ⟨name⟩
  | none => p.join ⟨name⟩

/-- The components behind those of `base`, when `p` starts with them. -/
def componentsBelow? (p base : Path) : Option (List Component) :=
  if base.components.isPrefixOf p.components then
    some (p.components.drop base.components.length)
  else none

end Path
end ModuleCache
