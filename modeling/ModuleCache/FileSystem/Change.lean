import ModuleCache.FileSystem

/-!
The operations that change a file system. Each either does what it is asked for or
fails with a reason and changes nothing, save that creating a chain of directories may
stop half-way. A directory counts as changed when an entry of it comes or goes.
-/

namespace ModuleCache.FileSystem

/-- The file system with an entry at an address, in place of one that was there. -/
def set (fs : FileSystem) (address : Address) (node : Node) : FileSystem :=
  { fs with nodes := (address, node) :: fs.nodes.filter (·.1 ≠ address) }

/-- The file system without the entry at an address. -/
def erase (fs : FileSystem) (address : Address) : FileSystem :=
  { fs with nodes := fs.nodes.filter (·.1 ≠ address) }

/-- The file system without the entry at an address and all that is below it. -/
def eraseTree (fs : FileSystem) (address : Address) : FileSystem :=
  { fs with nodes := fs.nodes.filter fun entry => !address.isPrefixOf entry.1 }

/-- Marks the directory at an address as changed just now. -/
def stamp (fs : FileSystem) (address : Address) : FileSystem :=
  match fs.node? address with
  | some (.directory writable _) => fs.set address (.directory writable fs.now)
  | _ => fs

inductive Ending where
  /-- At a name in the directory at an address. -/
  | entry (directory : Address) (name : String)
  /-- At a name that slashes follow. -/
  | slashed (directory : Address) (name : String)
  /-- At a directory that is named by a dot or two, or is the root. -/
  | dots (directory : Address)
  deriving DecidableEq, Repr

/-- Cuts pieces at the last one that does not stand between or behind slashes. -/
def cutLast (pieces : List (List Char)) : List (List Char) × List Char × Bool :=
  match pieces.reverse with
  | [] => ([], [], false)
  | last :: earlier =>
    if last ≠ [] then (earlier.reverse, last, false)
    else
      match earlier.dropWhile (· == []) with
      | [] => ([], [], true)
      | last :: earlier => (earlier.reverse, last, true)

/-- Where a path ends, for an operation that creates, replaces or removes what stands
there. The directory in front of the end has to exist. -/
def ending (fs : FileSystem) (p : Path) : Except IoError Ending := do
  checkText p
  let (before, last, slashed) := cutLast p.pieces
  let directory ← fs.walk (fs.start p) (before ++ [[]])
  if last = [] ∨ last = ['.'] ∨ last = ['.', '.'] then pure (.dots directory)
  else
    let name := String.ofList last
    if maxName < name.utf8ByteSize then throw .nameTooLong
    else if slashed then pure (.slashed directory name)
    else pure (.entry directory name)

/-- Refuses to add to or take from a directory that is not writable. -/
def checkWritable (fs : FileSystem) (directory : Address) : Except IoError Unit :=
  match fs.node? directory with
  | some (.directory false _) => .error .noPermission
  | _ => .ok ()

def defaultMode : Nat := 0o644

def createDirectory (fs : FileSystem) (p : Path) : Except IoError FileSystem := do
  match ← fs.ending p with
  | .dots _ => throw .exists
  | .entry directory name | .slashed directory name =>
    if (fs.node? (directory ++ [name])).isSome then throw .exists
    else
      fs.checkWritable directory
      pure ((fs.set (directory ++ [name]) (.directory true fs.now)).stamp directory)

/-- Creates the directory a path names and, as far as they are missing, the directories
above it. `bound` counts directories; a path has no more than it has pieces. -/
def createDirectoriesWithin (fs : FileSystem) (p : Path) : Nat → FileSystem × Except IoError Unit
  | 0 => (fs, .ok ())
  | bound + 1 =>
    if p.text = "" then (fs, .ok ())
    else
      match fs.createDirectory p with
      | .ok fs => (fs, .ok ())
      | .error .notFound =>
        match p.parent? with
        | none => (fs, .error .notFound)
        | some parent =>
          match fs.createDirectoriesWithin parent bound with
          | (fs, .error e) => (fs, .error e)
          | (fs, .ok ()) =>
            match fs.createDirectory p with
            | .ok fs => (fs, .ok ())
            | .error e => if fs.isDirectory p then (fs, .ok ()) else (fs, .error e)
      | .error e => if fs.isDirectory p then (fs, .ok ()) else (fs, .error e)

/-- Creates a directory with those above it. What was created stays when a later one
fails. -/
def createDirectories (fs : FileSystem) (p : Path) : FileSystem × Except IoError Unit :=
  fs.createDirectoriesWithin p (p.pieces.length + 1)

/-- Writes a file, new or in place of an old content. -/
def writeBytes (fs : FileSystem) (p : Path) (content : ByteArray) : Except IoError FileSystem := do
  match ← fs.ending p with
  | .dots _ | .slashed .. => throw .isDirectory
  | .entry directory name =>
    match fs.node? (directory ++ [name]) with
    | some (.directory ..) => throw .isDirectory
    | some (.file _ mode _) =>
      if mode &&& 0o200 = 0 then throw .noPermission
      else pure (fs.set (directory ++ [name]) (.file content mode fs.now))
    | none =>
      fs.checkWritable directory
      pure ((fs.set (directory ++ [name]) (.file content defaultMode fs.now)).stamp directory)

def writeText (fs : FileSystem) (p : Path) (text : String) : Except IoError FileSystem :=
  fs.writeBytes p text.toUTF8

def removeFile (fs : FileSystem) (p : Path) : Except IoError FileSystem := do
  match ← fs.ending p with
  | .dots _ => throw .isDirectory
  | .entry directory name =>
    match fs.node? (directory ++ [name]) with
    | none => throw .notFound
    | some (.directory ..) => throw .isDirectory
    | some (.file ..) =>
      fs.checkWritable directory
      pure ((fs.erase (directory ++ [name])).stamp directory)
  | .slashed directory name =>
    match fs.node? (directory ++ [name]) with
    | none => throw .notFound
    | some (.directory ..) => throw .isDirectory
    | some (.file ..) => throw .notDirectory

/-- Removes a file or a directory with all that is below it. -/
def removeTree (fs : FileSystem) (p : Path) : Except IoError FileSystem := do
  let address ← fs.locate p
  match fs.node? address with
  | none => throw .notFound
  | some _ => pure ((fs.eraseTree address).stamp address.dropLast)

/-- Moves a file to another path, in place of a file that was there. -/
def rename (fs : FileSystem) (source target : Path) : Except IoError FileSystem := do
  let sourceEnd ← fs.ending source
  let targetEnd ← fs.ending target
  match sourceEnd, targetEnd with
  | .entry sourceDirectory sourceName, .entry directory name =>
    let sourceAddress := sourceDirectory ++ [sourceName]
    match fs.node? sourceAddress with
    | none => throw .notFound
    | some (.directory ..) => throw .isDirectory
    | some (.file content mode modified) =>
      fs.checkWritable directory
      match fs.node? (directory ++ [name]) with
      | some (.directory ..) => throw .isDirectory
      | _ =>
        if sourceAddress = directory ++ [name] then pure fs
        else
          let fs := (fs.erase sourceAddress).set (directory ++ [name]) (.file content mode modified)
          pure ((fs.stamp sourceDirectory).stamp directory)
  | .entry .., .dots _ => throw .busy
  | .entry .., .slashed .. => throw .notDirectory
  | _, _ => throw .busy

/-- Sets the time of the last change of an entry. -/
def setModified (fs : FileSystem) (p : Path) (time : Time) : Except IoError FileSystem := do
  let address ← fs.locate p
  match fs.node? address with
  | none => throw .notFound
  | some (.file content mode _) => pure (fs.set address (.file content mode time))
  | some (.directory writable _) => pure (fs.set address (.directory writable time))

/-- Sets the permission bits of a file. -/
def setMode (fs : FileSystem) (p : Path) (mode : Nat) : Except IoError FileSystem := do
  let address ← fs.locate p
  match fs.node? address with
  | none => throw .notFound
  | some (.file content _ modified) => pure (fs.set address (.file content mode modified))
  | some (.directory ..) => pure fs

def setWritable (fs : FileSystem) (p : Path) (writable : Bool) : Except IoError FileSystem := do
  let address ← fs.locate p
  match fs.node? address with
  | none => throw .notFound
  | some (.file ..) => throw .notDirectory
  | some (.directory _ modified) => pure (fs.set address (.directory writable modified))

/-- Everything below an address, as the names that lead there; directories are marked. -/
def below (fs : FileSystem) (address : Address) : List (Address × Bool) :=
  fs.nodes.filterMap fun (other, node) =>
    if address.isPrefixOf other ∧ other ≠ address then
      some (other.drop address.length, node matches .directory ..)
    else none

end ModuleCache.FileSystem
