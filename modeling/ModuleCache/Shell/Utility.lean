import ModuleCache.Shell.Filter

/-!
The programs that scripts may call to change files and to take paths apart. Each gives
the status it ends with.
-/

namespace ModuleCache.Shell

/-- A path in quotes, as complaints show it. -/
def quoted (file : String) : String := s!"'{file}'"

/-- Does something with the files; complains when that fails. -/
def attempt (what : IoError → String) (change : FileSystem → Except IoError FileSystem) :
    Action Nat := do
  let s ← get
  match change s.fs with
  | .ok fs => do
    set { s with fs }
    pure 0
  | .error e => do
    complain (what e)
    pure 1

/-- Does something for each of the operands; the worst status counts. -/
def forEach (operands : List String) (action : String → Action Nat) : Action Nat :=
  operands.foldlM (fun worst operand => do pure (max worst (← action operand))) 0

/-- The path that something is copied or moved to: below a directory it keeps its name. -/
def destination (fs : FileSystem) (source target : Path) : Path :=
  if fs.isDirectory target then target.join ⟨source.baseName⟩ else target

/-- Copies a file, which keeps its permissions when it is new there. -/
def copyFile (fs : FileSystem) (source target : Path) : Except IoError FileSystem := do
  let target := destination fs source target
  match ← fs.find source with
  | .directory .. => throw .isDirectory
  | .file _ mode _ =>
    let content ← fs.readBytes source
    let isNew := !fs.existsAt target
    let fs ← fs.writeBytes target content
    if isNew then fs.setMode target mode else pure fs

/-- Copies what is below an address to a directory, which is created. -/
def copyTree (fs : FileSystem) (source : Address) (target : Path) : Except IoError FileSystem := do
  let fs ← if fs.isDirectory target then pure fs else fs.createDirectory target
  let entries := (fs.below source).mergeSort fun a b => decide (a.1.length ≤ b.1.length)
  entries.foldlM (fun fs (names, isDirectory) =>
    let entry := target.join ⟨"/".intercalate names⟩
    if isDirectory then
      if fs.isDirectory entry then pure fs else fs.createDirectory entry
    else do
      match fs.node? (source ++ names) with
      | some (.file content mode _) => (← fs.writeBytes entry content).setMode entry mode
      | _ => throw .notFound) fs

/-- The sources and the target of a program that copies or moves. -/
def sourcesAndTarget (operands : List String) : List String × String :=
  (operands.dropLast, operands.getLast?.getD "")

def cp (arguments : List String) : Action Nat := do
  let p := parsed [] arguments
  let (sources, target) := sourcesAndTarget p.operands
  let isDeep := p.letters.any ['r', 'R', 'a'].contains
  if sources.isEmpty then
    complain s!"cp: missing file operand"
    pure 1
  else
    forEach sources fun source => do
      let s ← get
      if !s.fs.existsAt ⟨source⟩ then
        complain s!"cp: cannot stat {quoted source}: {IoError.notFound.reason}"
        pure 1
      else if s.fs.isDirectory ⟨source⟩ then
        if isDeep then
          attempt (fun e => s!"cp: cannot create directory {quoted target}: {e.reason}") fun fs => do
            copyTree fs (← fs.locate ⟨source⟩) (destination fs ⟨source⟩ ⟨target⟩)
        else
          complain s!"cp: -r not specified; omitting directory {quoted source}"
          pure 1
      else
        let made := (destination s.fs ⟨source⟩ ⟨target⟩).text
        attempt (fun e => s!"cp: cannot create regular file {quoted made}: {e.reason}") fun fs =>
          copyFile fs ⟨source⟩ ⟨target⟩

def mv (arguments : List String) : Action Nat := do
  let (sources, target) := sourcesAndTarget (parsed [] arguments).operands
  forEach sources fun source => do
    let s ← get
    if !s.fs.existsAt ⟨source⟩ then
      complain s!"mv: cannot stat {quoted source}: {IoError.notFound.reason}"
      pure 1
    else
      let made := destination s.fs ⟨source⟩ ⟨target⟩
      attempt (fun e => s!"mv: cannot move {quoted source} to {quoted made.text}: {e.reason}") fun fs =>
        if fs.isDirectory ⟨source⟩ then do
          (← copyTree fs (← fs.locate ⟨source⟩) made).removeTree ⟨source⟩
        else fs.rename ⟨source⟩ made

def rm (arguments : List String) : Action Nat := do
  let p := parsed [] arguments
  let isForced := p.letters.contains 'f'
  let isDeep := p.letters.any ['r', 'R'].contains
  forEach p.operands fun operand =>
    attempt (fun e => s!"rm: cannot remove {quoted operand}: {e.reason}") fun fs =>
      if isForced && !fs.existsAt ⟨operand⟩ then pure fs
      else if isDeep then fs.removeTree ⟨operand⟩
      else fs.removeFile ⟨operand⟩

def mkdir (arguments : List String) : Action Nat := do
  let p := parsed ['m'] arguments
  forEach p.operands fun operand =>
    attempt (fun e => s!"mkdir: cannot create directory {quoted operand}: {e.reason}") fun fs =>
      if p.letters.contains 'p' then
        let (fs, made) := fs.createDirectories ⟨operand⟩
        made.map fun () => fs
      else fs.createDirectory ⟨operand⟩

def rmdir (arguments : List String) : Action Nat :=
  forEach (parsed [] arguments).operands fun operand =>
    attempt (fun e => s!"rmdir: failed to remove {quoted operand}: {e.reason}") fun fs => do
      if fs.isFile ⟨operand⟩ then throw .notDirectory
      if !(← fs.names ⟨operand⟩).isEmpty then throw .notEmpty
      fs.removeTree ⟨operand⟩

/-- Marks files as changed just now, and creates those that are missing. -/
def touch (arguments : List String) : Action Nat :=
  forEach (parsed ['t', 'd', 'r'] arguments).operands fun operand =>
    attempt (fun e => s!"touch: cannot touch {quoted operand}: {e.reason}") fun fs =>
      if fs.existsAt ⟨operand⟩ then fs.setModified ⟨operand⟩ fs.now
      else fs.writeBytes ⟨operand⟩ .empty

/-- The permission bits that a letter stands for. -/
def permission (letter : Char) : Nat :=
  match letter with
  | 'r' => 0o444
  | 'w' => 0o222
  | 'x' => 0o111
  | _ => 0

/-- The bits of those that letters in front of the sign name. -/
def whose (letters : List Char) : Nat :=
  if letters.isEmpty || letters.contains 'a' then 0o777
  else (if letters.contains 'u' then 0o700 else 0) ||| (if letters.contains 'g' then 0o070 else 0) |||
    (if letters.contains 'o' then 0o007 else 0)

/-- The permission bits that a text makes of others. -/
def changedMode (text : List Char) (mode : Nat) : Nat :=
  if text.all isOctal then octal text
  else
    let isSign (c : Char) : Bool := c == '+' || c == '-' || c == '='
    let scope := whose (text.takeWhile (!isSign ·))
    let rest := text.dropWhile (!isSign ·)
    let bits := ((rest.drop 1).foldl (fun bits c => bits ||| permission c) 0) &&& scope
    match rest.head? with
    | some '+' => mode ||| bits
    | some '-' => mode - (mode &&& bits)
    | some '=' => (mode - (mode &&& scope)) ||| bits
    | _ => mode

def chmod (arguments : List String) : Action Nat := do
  let change := (arguments.headD "").toList
  forEach (arguments.drop 1) fun operand =>
    attempt (fun e => s!"chmod: cannot access {quoted operand}: {e.reason}") fun fs => do
      match ← fs.find ⟨operand⟩ with
      | .file _ mode _ => fs.setMode ⟨operand⟩ (changedMode change mode)
      | .directory .. => fs.setWritable ⟨operand⟩ (changedMode change 0o755 &&& 0o200 != 0)

def ls (arguments : List String) : Action Nat := do
  let p := parsed [] arguments
  forEach (if p.operands.isEmpty then ["."] else p.operands) fun operand => do
    let fs := (← get).fs
    match fs.names ⟨operand⟩ with
    | .ok names =>
      let shown :=
        if p.letters.contains 'a' then "." :: ".." :: names
        else names.filter (·.toList.head? != some '.')
      (shown.mergeSort fun a b => decide (a ≤ b)).forM printLine
      pure 0
    | .error .notDirectory =>
      printLine operand
      pure 0
    | .error e =>
      complain s!"ls: cannot access {quoted operand}: {e.reason}"
      pure 2

/-- Prints the last name of a path, without an ending. -/
def basename (arguments : List String) : Action Nat := do
  let name := Path.baseName ⟨arguments.headD ""⟩
  let ending := ((arguments.drop 1).headD "").toList
  let kept :=
    if ending ≠ name.toList ∧ ending.isSuffixOf name.toList then
      name.toList.take (name.length - ending.length)
    else name.toList
  printLine (String.ofList kept)
  pure 0

def dirname (arguments : List String) : Action Nat := do
  let directory := ((Path.parent? ⟨arguments.headD ""⟩).map (·.text)).getD "/"
  printLine (if directory = "" then "." else directory)
  pure 0

def seq (arguments : List String) : Action Nat := do
  let numbers := arguments.map fun argument => argument.toNat?.getD 0
  let (first, last) := match numbers with
    | [last] => (1, last)
    | [first, last] => (first, last)
    | _ => (1, 0)
  (List.range (last + 1 - first)).forM fun n => printLine (toString (first + n))
  pure 0

/-- The system program of a name, if it is one of those that are known. -/
def utility? (name : String) (arguments : List String) : Option (Action Nat) :=
  match name with
  | "true" | "sleep" | "sync" => some (pure 0)
  | "false" => some (pure 1)
  | "echo" => some (echo arguments)
  | "printf" => some (printf arguments)
  | "test" => some (test "test" arguments)
  | "cp" => some (cp arguments)
  | "mv" => some (mv arguments)
  | "rm" => some (rm arguments)
  | "mkdir" => some (mkdir arguments)
  | "rmdir" => some (rmdir arguments)
  | "touch" => some (touch arguments)
  | "chmod" => some (chmod arguments)
  | "ls" => some (ls arguments)
  | "basename" => some (basename arguments)
  | "dirname" => some (dirname arguments)
  | "seq" => some (seq arguments)
  | _ => filter? name arguments

/-- The name of a system program, for a file in a directory of system programs. -/
def utilityName? (address : Address) : Option String :=
  match address with
  | ["bin", name] | ["usr", "bin", name] => some name
  | _ => none

end ModuleCache.Shell
