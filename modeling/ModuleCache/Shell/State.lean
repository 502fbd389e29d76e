import ModuleCache.FileSystem.Change
import ModuleCache.Shell.Pattern
import ModuleCache.Shell.Printing
import ModuleCache.Shell.Syntax
import ModuleCache.Text.Lossy
import ModuleCache.Text.Split

/-!
The state of a running script: its variables and arguments, the files, and where its
streams lead. A script may stop in the middle of anything, and what it did until then
stays.
-/

namespace ModuleCache.Shell

inductive Sink where
  | output
  | complaints
  | file (address : Address)
  /-- What is written there is lost. -/
  | nowhere
  deriving DecidableEq, Repr

/-- Why commands stop before they come to their end. -/
inductive Stop where
  | exit (status : Nat)
  | killed (signal : Nat)
  /-- So many loops are left, or the last of them goes on with its next round. -/
  | endRound (leaves : Bool) (loops : Nat)
  /-- A command that the script defines has come to its end. -/
  | finished (status : Nat)
  deriving DecidableEq, Repr

structure State where
  fs : FileSystem
  name : String
  arguments : List String
  bindings : List (String × String)
  functions : List (String × Command) := []
  /-- The variables that belong to the running one of these commands. -/
  locals : List String := []
  /-- How the last command ended; zero is success. -/
  status : Nat := 0
  /-- How many line breaks the script has. -/
  lines : Nat := 0
  line : Nat := 0
  /-- A command that fails ends the script, unless it is tested. -/
  stopsOnFailure : Bool := false
  isTested : Bool := false
  /-- A variable that is not set ends the script. -/
  stopsOnUnset : Bool := false
  /-- The commands to run at the end. -/
  atEnd : Option String := none
  input : List UInt8 := []
  outputTo : Sink := .output
  complaintsTo : Sink := .complaints
  printed : List UInt8 := []
  complained : List UInt8 := []

/-- What a command does to the state. -/
abbrev Action (α : Type) := ExceptT Stop (StateM State) α

def textOf (bytes : List UInt8) : String := String.ofList (Text.readLossy bytes)

/-- Sends bytes to where a stream leads. -/
def State.send (s : State) (sink : Sink) (bytes : List UInt8) : State :=
  match sink with
  | .output => { s with printed := s.printed ++ bytes }
  | .complaints => { s with complained := s.complained ++ bytes }
  | .nowhere => s
  | .file address =>
    match s.fs.node? address with
    | some (.file content mode _) =>
      let content := ByteArray.mk (content.data ++ bytes.toArray)
      { s with fs := s.fs.set address (.file content mode s.fs.now) }
    | _ => s

def print (bytes : List UInt8) : Action Unit := modify fun s => s.send s.outputTo bytes

def printLine (text : String) : Action Unit := print (bytesOf (text ++ "\n"))

def complain (text : String) : Action Unit :=
  modify fun s => s.send s.complaintsTo (bytesOf (text ++ "\n"))

/-- Complains in the name of the script about its running line. -/
def report (text : String) : Action Unit := do
  let s ← get
  complain s!"{s.name}: {s.line}: {text}"

def setStatus (status : Nat) : Action Unit := modify fun s => { s with status }

/-- The number that stands for the running script. -/
def processNumber : Nat := 10000

def State.separators (s : State) : List Char :=
  ((s.bindings.lookup "IFS").getD " \t\n").toList

/-- The options that are switched on, by their letters. -/
def State.options (s : State) : String :=
  (if s.stopsOnFailure then "e" else "") ++ (if s.stopsOnUnset then "u" else "")

/-- The value of a parameter, if it has one. -/
def State.value? (s : State) (name : String) : Option String :=
  match name with
  | "#" => some (toString s.arguments.length)
  | "?" => some (toString s.status)
  | "$" => some (toString processNumber)
  | "!" => none
  | "-" => some s.options
  | "0" => some s.name
  | "@" =>
    if s.arguments.isEmpty then none else some (" ".intercalate s.arguments)
  | "*" =>
    let between := String.ofList (s.separators.take 1)
    if s.arguments.isEmpty then none else some (between.intercalate s.arguments)
  | _ =>
    if name.toList.all Char.isDigit then s.arguments[name.toNat?.getD 0 - 1]?
    else s.bindings.lookup name

def State.assign (s : State) (name value : String) : State :=
  { s with bindings := (name, value) :: s.bindings.filter (·.1 ≠ name) }

/-- Takes the value of a variable away. -/
def State.unassign (s : State) (name : String) : State :=
  { s with bindings := s.bindings.filter (·.1 ≠ name) }

/-- The words that an expansion has made, and the one it is working on. -/
structure Fields where
  finished : List (List Marked) := []
  current : Option (List Marked) := none

/-- Ends the word that is being worked on. -/
def Fields.close (f : Fields) : Fields :=
  match f.current with
  | none => f
  | some word => ⟨f.finished ++ [word], none⟩

def Fields.add (f : Fields) (quoted : Bool) (chars : List Char) : Fields :=
  if chars.isEmpty && !quoted then f
  else { f with current := some (f.current.getD [] ++ chars.map (·, quoted)) }

/-- Adds marked characters, and ends the word at each of the separators, of which those
that are no blanks also end an empty word. -/
def Fields.addSplit (f : Fields) (separators : List Char) (chars : List Marked) : Fields :=
  chars.foldl (fun f (c, quoted) =>
    if quoted || !separators.contains c then f.add quoted [c]
    else if c.isWhitespace then f.close
    else Fields.close { f with current := some (f.current.getD []) }) f

/-- Adds texts that are words each, the first of them to the word at hand. -/
def Fields.addAll (f : Fields) : List String → Fields
  | [] => f
  | [text] => f.add true text.toList
  | text :: rest => (f.add true text.toList).close.addAll rest

def unmark (word : List Marked) : String := String.ofList (word.map (·.1))

end ModuleCache.Shell
