import ModuleCache.Path

/-!
A file system in memory: directories, and files with their bytes, permissions and
times. There are no links, so an entry is known by its address, the list of names from
the root down. This module says which entry a path leads to and what can be read there;
`FileSystem.Change` holds the operations that change something.
-/

namespace ModuleCache

inductive IoError where
  | notFound
  | noPermission
  | notProgram
  | busy
  | exists
  | notDirectory
  | isDirectory
  | nameTooLong
  | notEmpty
  /-- A name holds a zero character. -/
  | zeroInName
  /-- The bytes of a file are no text. -/
  | notText
  deriving DecidableEq, Repr

def IoError.reason : IoError → String
  | .notFound => "No such file or directory"
  | .noPermission => "Permission denied"
  | .notProgram => "Exec format error"
  | .busy => "Device or resource busy"
  | .exists => "File exists"
  | .notDirectory => "Not a directory"
  | .isDirectory => "Is a directory"
  | .nameTooLong => "File name too long"
  | .notEmpty => "Directory not empty"
  | .zeroInName => "file name contained an unexpected NUL byte"
  | .notText => "stream did not contain valid UTF-8"

/-- The number of an error that the operating system gives. -/
def IoError.number? : IoError → Option Nat
  | .notFound => some 2
  | .noPermission => some 13
  | .notProgram => some 8
  | .busy => some 16
  | .exists => some 17
  | .notDirectory => some 20
  | .isDirectory => some 21
  | .nameTooLong => some 36
  | .notEmpty => some 39
  | .zeroInName | .notText => none

/-- The text shown for an error: what it is called, with its number if it has one. -/
def IoError.message (e : IoError) : String :=
  match e.number? with
  | some number => s!"{e.reason} (os error {number})"
  | none => e.reason

/-- Nanoseconds since the start of 1970. -/
abbrev Time := Nat

inductive Node where
  /-- A file with its content and permission bits. -/
  | file (content : ByteArray) (mode : Nat) (modified : Time)
  /-- A directory. In one that is not writable nothing can be created or removed. -/
  | directory (writable : Bool) (modified : Time)

def Node.modified : Node → Time
  | .file _ _ modified => modified
  | .directory _ modified => modified

/-- The names from the root directory down to an entry. -/
abbrev Address := List String

/-- The entries that exist, as a process finds them: with its current directory, its number
and the time of day. -/
structure FileSystem where
  /-- The entries, each under its address. -/
  nodes : List (Address × Node)
  /-- The directory that relative paths start from. -/
  current : Address
  now : Time
  /-- The number of the process, which no other one has. -/
  process : Nat

namespace FileSystem

/-- The path of the directory that relative paths start from. -/
def directory (fs : FileSystem) : Path := ⟨"/" ++ "/".intercalate fs.current⟩

def node? (fs : FileSystem) (address : Address) : Option Node := fs.nodes.lookup address

/-- The greatest count of bytes in a name. -/
def maxName : Nat := 255

/-- The greatest count of bytes in a path. -/
def maxPath : Nat := 4095

/-- The address that pieces of a path lead to from an address. Every step has to start
in a directory that exists; the last entry need not. -/
def walk (fs : FileSystem) : Address → List (List Char) → Except IoError Address
  | address, [] => .ok address
  | address, piece :: rest =>
    match fs.node? address with
    | none => .error .notFound
    | some (.file ..) => .error .notDirectory
    | some (.directory ..) =>
      if Path.isIdle piece then fs.walk address rest
      else if piece = ['.', '.'] then fs.walk address.dropLast rest
      else
        let name := String.ofList piece
        if maxName < name.utf8ByteSize then .error .nameTooLong
        else fs.walk (address ++ [name]) rest

/-- Where the pieces of a path start. -/
def start (fs : FileSystem) (p : Path) : Address := if p.isAbsolute then [] else fs.current

/-- Refuses texts that no path can be. -/
def checkText (p : Path) : Except IoError Unit :=
  if p.text = "" then .error .notFound
  else if p.text.toList.contains '\x00' then .error .zeroInName
  else if maxPath < p.text.utf8ByteSize then .error .nameTooLong
  else .ok ()

def locate (fs : FileSystem) (p : Path) : Except IoError Address := do
  checkText p
  fs.walk (fs.start p) p.pieces

def find (fs : FileSystem) (p : Path) : Except IoError Node := do
  let address ← fs.locate p
  match fs.node? address with
  | some node => pure node
  | none => throw .notFound

def existsAt (fs : FileSystem) (p : Path) : Bool := (fs.find p).isOk

def isFile (fs : FileSystem) (p : Path) : Bool :=
  match fs.find p with
  | .ok (.file ..) => true
  | _ => false

def isDirectory (fs : FileSystem) (p : Path) : Bool :=
  match fs.find p with
  | .ok (.directory ..) => true
  | _ => false

/-- A path leads to a file that someone may execute. -/
def isExecutable (fs : FileSystem) (p : Path) : Bool :=
  match fs.find p with
  | .ok (.file _ mode _) => mode &&& 0o111 != 0
  | _ => false

/-- When the entry a path leads to was last changed. -/
def modified? (fs : FileSystem) (p : Path) : Option Time :=
  match fs.find p with
  | .ok node => some node.modified
  | .error _ => none

/-- The bytes of the file a path leads to. -/
def readBytes (fs : FileSystem) (p : Path) : Except IoError ByteArray := do
  match ← fs.find p with
  | .directory .. => throw .isDirectory
  | .file content mode _ => if mode &&& 0o400 = 0 then throw .noPermission else pure content

/-- The text of the file a path leads to. -/
def readText (fs : FileSystem) (p : Path) : Except IoError String := do
  match String.fromUTF8? (← fs.readBytes p) with
  | some text => pure text
  | none => throw .notText

/-- The names of the entries right below an address. -/
def namesAt (fs : FileSystem) (address : Address) : List String :=
  fs.nodes.filterMap fun (other, _) =>
    match other.getLast? with
    | some name => if other.dropLast = address then some name else none
    | none => none

/-- The names of the entries of the directory a path leads to. -/
def names (fs : FileSystem) (p : Path) : Except IoError (List String) := do
  match ← fs.find p with
  | .directory .. => pure (fs.namesAt (← fs.locate p))
  | .file .. => throw .notDirectory

end FileSystem
end ModuleCache
