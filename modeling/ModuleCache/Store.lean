import ModuleCache.FileSystem.Change
import ModuleCache.Journal
import ModuleCache.Placement

/-!
The store of artifacts and their source maps. An artifact counts as fresh when it is
not older than its source; contents are never compared. A file is written under another
name first and then moved into place, so no reader meets a half-written one, and a
failed write leaves what was there before.
-/

namespace ModuleCache.Store

/-- Why an artifact cannot be read or written. -/
inductive Error where
  | notFound (path : Path)
  | unreadable (path : Path) (cause : IoError)
  /-- The artifact, or a directory for it, cannot be written. -/
  | artifactWrite (path : Path) (cause : IoError)
  | mapWrite (path : Path) (cause : IoError)
  deriving DecidableEq, Repr

def Error.message : Error → String
  | .notFound path => s!"cached artifact not found: {path.text}"
  | .unreadable path cause => s!"cache I/O error at {path.text}: {cause.message}"
  | .artifactWrite path cause => s!"failed to write cached artifact {path.text}: {cause.message}"
  | .mapWrite path cause => s!"failed to write source map {path.text}: {cause.message}"

def Error.isNotFound : Error → Bool
  | .notFound _ => true
  | _ => false

/-- The artifact exists and is not older than the source. -/
def isFresh (fs : FileSystem) (source artifact : Path) : Bool :=
  match fs.modified? source, fs.modified? artifact with
  | some sourceTime, some artifactTime => sourceTime ≤ artifactTime
  | _, _ => false

def read (fs : FileSystem) (artifact : Path) : Except Error String :=
  match fs.readText artifact with
  | .ok text => .ok text
  | .error .notFound => .error (.notFound artifact)
  | .error cause => .error (.unreadable artifact cause)

/-- What a process puts behind the name of a file that it is writing. -/
def temporarySuffix (process : Nat) : String := s!".{process}.tmp"

/-- The name a process writes a file under before it moves it into place. -/
def temporary (process : Nat) (p : Path) : Path :=
  p.withFileName (p.baseName ++ temporarySuffix process)

/-- Removes what is under the temporary name of a file, if that can be removed. -/
def discard (fs : FileSystem) (p : Path) : FileSystem :=
  (fs.removeFile (temporary fs.process p)).toOption.getD fs

/-- Writes a file under its temporary name and moves it into place. On failure nothing
is left of it, nor of what was under that name before. -/
def replace (fs : FileSystem) (p : Path) (content : String) : FileSystem × Except IoError Unit :=
  match fs.writeText (temporary fs.process p) content with
  | .error cause => (discard fs p, .error cause)
  | .ok written =>
    match written.rename (temporary fs.process p) p with
    | .ok moved => (moved, .ok ())
    | .error cause => (discard written p, .error cause)

/-- Writes a file after creating the directories it belongs in. -/
def writeMap (fs : FileSystem) (p : Path) (map : String) : FileSystem × Except Error Unit :=
  let (fs, made) :=
    match p.parent? with
    | some directory => fs.createDirectories directory
    | none => (fs, .ok ())
  match made with
  | .error cause => (fs, .error (.mapWrite p cause))
  | .ok () =>
    let (fs, replaced) := replace fs p map
    (fs, replaced.mapError (.mapWrite p))

/-- Writes an artifact after creating the directories it belongs in. -/
def writeArtifact (fs : FileSystem) (p : Path) (content : String) :
    FileSystem × Except Error Unit :=
  match p.parent? with
  | some directory =>
    match fs.createDirectories directory with
    | (fs, .error cause) => (fs, .error (.artifactWrite directory cause))
    | (fs, .ok ()) =>
      let (fs, replaced) := replace fs p content
      (fs, replaced.mapError (.artifactWrite p))
  | none =>
    let (fs, replaced) := replace fs p content
    (fs, replaced.mapError (.artifactWrite p))

structure Written where
  fs : FileSystem
  notes : Journal
  /-- Whether the map was written, if the artifact was. -/
  outcome : Except Error Bool

/-- The note about a source map that could not be written. -/
def mapNote (error : Error) : Note :=
  ⟨.warn, "source map not persisted; artifact remains usable", [("err", .plain error.message)]⟩

/-- Writes an artifact and then its source map, if there is one. Only the artifact has
to succeed. -/
def write (fs : FileSystem) (artifact map : Path) (content : String) (mapContent : Option String) :
    Written :=
  match writeArtifact fs artifact content with
  | (fs, .error e) => ⟨fs, [], .error e⟩
  | (fs, .ok ()) =>
    match mapContent with
    | none => ⟨fs, [], .ok false⟩
    | some text =>
      match writeMap fs map text with
      | (fs, .ok ()) => ⟨fs, [], .ok true⟩
      | (fs, .error e) => ⟨fs, [mapNote e], .ok false⟩

end ModuleCache.Store
