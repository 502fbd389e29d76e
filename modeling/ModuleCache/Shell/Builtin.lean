import ModuleCache.Shell.State
import ModuleCache.Shell.Test

/-!
The commands that need no program of their own and run no other command: printing,
testing, reading a line, and what concerns variables, arguments and the end of the
script. Each gives the status it ends with.
-/

namespace ModuleCache.Shell

/-- Prints its arguments in a line, without the line break behind `-n`. -/
def echo (arguments : List String) : Action Nat := do
  let isOpen := arguments.head? = some "-n"
  let words := if isOpen then arguments.drop 1 else arguments
  let (bytes, ends) := unescape (" ".intercalate words).toList
  print (if isOpen || ends then bytes else bytes ++ [10])
  pure 0

def printf (arguments : List String) : Action Nat :=
  match if arguments.head? = some "--" then arguments.drop 1 else arguments with
  | [] => do
    report "printf: usage: printf format [arg ...]"
    pure 2
  | format :: arguments => do
    let printed := formatAll format.toList arguments.length { arguments }
    print printed.bytes
    printed.faults.forM report
    pure (if printed.faults.isEmpty then 0 else 1)

def test (name : String) (arguments : List String) : Action Nat := do
  match holds (← get).fs (arguments.length + 2) arguments with
  | .ok answer => pure (if answer then 0 else 1)
  | .error fault =>
    report s!"{name}: {fault.message}"
    pure 2

def bracket (arguments : List String) : Action Nat := do
  if arguments.getLast? = some "]" then test "[" arguments.dropLast
  else
    report "[: missing ]"
    pure 2

/-- A line that a script reads, where a backslash takes the meaning of the character
behind it, unless all is `plain`. Gives the line and the bytes behind it, if it ended. -/
def takeLine (plain : Bool) : List UInt8 → List (UInt8 × Bool) × Option (List UInt8)
  | [] => ([], none)
  | 10 :: rest => ([], some rest)
  | 92 :: 10 :: rest =>
    if plain then ([(92, false)], some rest) else takeLine plain rest
  | 92 :: byte :: rest =>
    if plain then
      let (line, behind) := takeLine plain (byte :: rest)
      ((92, false) :: line, behind)
    else
      let (line, behind) := takeLine plain rest
      ((byte, true) :: line, behind)
  | byte :: rest =>
    let (line, behind) := takeLine plain rest
    ((byte, false) :: line, behind)

/-- The values that a line gives to names: a word each, and to the last one the rest. A
character that stands for itself separates nothing. -/
def shareLine (separators : List Char) : List String → List (Char × Bool) → List (String × String)
  | [], _ => []
  | [name], line =>
    let isBlank (entry : Char × Bool) : Bool :=
      separators.contains entry.1 && !entry.2 && entry.1.isWhitespace
    let trimmed := ((line.dropWhile isBlank).reverse.dropWhile isBlank).reverse
    [(name, String.ofList (trimmed.map (·.1)))]
  | name :: names, line =>
    let separates (entry : Char × Bool) : Bool := separators.contains entry.1 && !entry.2
    let isBlank (entry : Char × Bool) : Bool := separates entry && entry.1.isWhitespace
    let line := line.dropWhile isBlank
    let rest := (line.dropWhile (!separates ·)).dropWhile isBlank
    let rest := match rest with
      | entry :: behind => if separates entry then behind else rest
      | [] => []
    (name, String.ofList ((line.takeWhile (!separates ·)).map (·.1))) :: shareLine separators names rest

/-- The characters of bytes that are marked. -/
def markedText (bytes : List (UInt8 × Bool)) : List (Char × Bool) :=
  if bytes.any (·.2) then
    bytes.flatMap fun (byte, mark) => (Text.readLossy [byte]).map (·, mark)
  else (Text.readLossy (bytes.map (·.1))).map (·, false)

/-- Reads a line of the input into variables; it fails at the end of the input. -/
def readLine (arguments : List String) : Action Nat := do
  let s ← get
  let options := arguments.takeWhile (·.toList.head? == some '-')
  let names := arguments.drop options.length
  let (line, behind) := takeLine (options.contains "-r") s.input
  let shared := shareLine s.separators (if names.isEmpty then ["REPLY"] else names) (markedText line)
  set (shared.foldl (fun s (name, value) => s.assign name value)
    { s with input := behind.getD [] })
  pure (if behind.isSome then 0 else 1)

/-- A whole number that is not negative, or the end of the script. -/
def count (command word : String) : Action Nat :=
  match word.toNat? with
  | some n => pure n
  | none => do
    report s!"{command}: Illegal number: {word}"
    throw (.exit 2)

def shift (arguments : List String) : Action Nat := do
  let n ← count "shift" (arguments.headD "1")
  let s ← get
  if s.arguments.length < n then
    report "shift: can't shift that many"
    throw (.exit 2)
  else
    set { s with arguments := s.arguments.drop n }
    pure 0

/-- The number of a signal by name or number. -/
def signalNumber (text : String) : Option Nat :=
  let names := [("HUP", 1), ("INT", 2), ("QUIT", 3), ("ILL", 4), ("TRAP", 5), ("ABRT", 6),
    ("BUS", 7), ("FPE", 8), ("KILL", 9), ("USR1", 10), ("SEGV", 11), ("USR2", 12), ("PIPE", 13),
    ("ALRM", 14), ("TERM", 15)]
  match text.toNat? with
  | some number => some number
  | none => names.lookup text

/-- Sends a signal, which only the script itself can get. -/
def kill (arguments : List String) : Action Nat :=
  let signal :=
    match arguments with
    | "-s" :: name :: _ => signalNumber name
    | option :: _ :: _ => signalNumber (String.ofList (option.toList.drop 1))
    | _ => some 15
  match signal with
  | some 0 => pure 0
  | some number => throw (.killed number)
  | none => pure 1

/-- A name and a value on the two sides of an equality sign. -/
def nameAndValue (argument : String) : String × Option String :=
  match Text.split '=' argument.toList with
  | name :: value@(_ :: _) => (String.ofList name, some (String.ofList (Text.join '=' value)))
  | _ => (argument, none)

def setAll (arguments : List String) : Action Nat := do
  for argument in arguments do
    match nameAndValue argument with
    | (name, some value) => modify (·.assign name value)
    | (_, none) => pure ()
  pure 0

/-- Makes variables belong to the running command of the script. -/
def setLocal (arguments : List String) : Action Nat := do
  for argument in arguments do
    modify fun s => { s with locals := (nameAndValue argument).1 :: s.locals }
  setAll arguments

/-- Takes the values of variables and commands of the script away. -/
def unset (arguments : List String) : Action Nat := do
  for name in arguments.filter (·.toList.head? != some '-') do
    modify fun s =>
      if arguments.head? = some "-f" then
        { s with functions := s.functions.filter (·.1 ≠ name) }
      else s.unassign name
  pure 0

def State.switch (s : State) (on : Bool) (letter : Char) : State :=
  match letter with
  | 'e' => { s with stopsOnFailure := on }
  | 'u' => { s with stopsOnUnset := on }
  | _ => s

/-- Switches the option with a long name on or off. -/
def State.switchNamed (s : State) (on : Bool) (name : String) : State :=
  match name with
  | "errexit" => s.switch on 'e'
  | "nounset" => s.switch on 'u'
  | _ => s

/-- Sets options and arguments of the script. -/
def setOptions : List String → State → State
  | [], s => s
  | "--" :: arguments, s => { s with arguments }
  | "-o" :: name :: rest, s => setOptions rest (s.switchNamed true name)
  | "+o" :: name :: rest, s => setOptions rest (s.switchNamed false name)
  | argument :: rest, s =>
    match argument.toList with
    | '-' :: letters => setOptions rest (letters.foldl (fun s c => s.switch true c) s)
    | '+' :: letters => setOptions rest (letters.foldl (fun s c => s.switch false c) s)
    | _ => { s with arguments := argument :: rest }

def changeDirectory (arguments : List String) : Action Nat := do
  let s ← get
  let target := arguments.headD ((s.bindings.lookup "HOME").getD "/")
  match s.fs.isDirectory ⟨target⟩, s.fs.locate ⟨target⟩ with
  | true, .ok current =>
    set ({ s with fs := { s.fs with current } }.assign "PWD" ("/" ++ "/".intercalate current))
    pure 0
  | _, _ =>
    report s!"cd: can't cd to {target}"
    pure 2

/-- Sets what to run at the end. -/
def setTrap (arguments : List String) : Action Nat := do
  match arguments with
  | commands :: signals =>
    if signals.contains "EXIT" || signals.contains "0" then
      modify fun s => { s with atEnd := if commands = "-" then none else some commands }
  | [] => pure ()
  pure 0

/-- Leaves loops or goes on with their next rounds. -/
def endRound (command : String) (leaves : Bool) (arguments : List String) : Action Nat := do
  let loops ← count command (arguments.headD "1")
  setStatus 0
  throw (.endRound leaves loops)

/-- The status that a command ends with. -/
def endStatus (command : String) (arguments : List String) : Action Nat := do
  match arguments with
  | [] => pure (← get).status
  | word :: _ => pure ((← count command word) % 256)

/-- The command of a name, if it needs no program and runs no other command. -/
def builtin? (name : String) (arguments : List String) : Option (Action Nat) :=
  match name with
  | ":" | "true" | "umask" | "wait" | "readonly" | "ulimit" | "hash" => some do
    if name = "readonly" then setAll arguments else pure 0
  | "false" => some (pure 1)
  | "echo" => some (echo arguments)
  | "printf" => some (printf arguments)
  | "test" => some (test "test" arguments)
  | "[" => some (bracket arguments)
  | "read" => some (readLine arguments)
  | "shift" => some (shift arguments)
  | "export" => some (setAll arguments)
  | "local" => some (setLocal arguments)
  | "unset" => some (unset arguments)
  | "set" => some do
    modify (setOptions arguments)
    pure 0
  | "cd" | "chdir" => some (changeDirectory arguments)
  | "trap" => some (setTrap arguments)
  | "kill" => some (kill arguments)
  | "break" => some (endRound "break" true arguments)
  | "continue" => some (endRound "continue" false arguments)
  | "exit" => some do throw (.exit (← endStatus "exit" arguments))
  | "return" => some do throw (.finished (← endStatus "return" arguments))
  | "pwd" => some do
    printLine ("/" ++ "/".intercalate (← get).fs.current)
    pure 0
  | _ => none

end ModuleCache.Shell
