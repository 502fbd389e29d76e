import ModuleCache.Settings.Sections

/-!
The arguments of the command line. Options may stand in front of the task and behind
it; one that stands in both places counts as given behind. An option that is not known,
is given twice in one place or has no value makes the command line unusable.
-/

namespace ModuleCache.CommandLine

structure Options where
  quiet : Bool := false
  verbose : Bool := false
  /-- When output is emphasised, if that is said. -/
  color : Option ColorMode := none
  /-- The configuration document, if one is named. -/
  config : Option String := none
  deriving DecidableEq, Repr

/-- The options, where those given later count. -/
def Options.with (before behind : Options) : Options where
  quiet := before.quiet || behind.quiet
  verbose := before.verbose || behind.verbose
  color := behind.color <|> before.color
  config := behind.config <|> before.config

/-- What the program is asked to do. -/
inductive Task where
  /-- Load files, and perhaps print their code. -/
  | load (files : List String) (emits : Bool)
  /-- Load all files below a directory. -/
  | warm (directory : Option String)
  /-- Show where the artifacts of a file belong. -/
  | paths (file : String)
  /-- Lead a position back to the source. -/
  | trace (position : String)
  deriving DecidableEq, Repr

inductive Invocation where
  | run (options : Options) (task : Task)
  | version
  | help
  deriving DecidableEq, Repr

/-- The arguments read so far in one place: the options, whether code is to be printed,
and the operands. -/
structure Given where
  options : Options := {}
  emits : Bool := false
  operands : List String := []
  deriving DecidableEq, Repr

/-- Why reading stops in front of the last argument. -/
inductive Halt where
  /-- The command line is unusable. -/
  | unusable
  | version
  | help
  deriving DecidableEq, Repr

/-- An argument that stands for itself and is no option. -/
def isOperand (argument : String) : Bool :=
  argument = "-" || argument.toList.head? ≠ some '-'

inductive Flag where
  | quiet
  | verbose
  | emit
  | version
  | help
  deriving DecidableEq, Repr

/-- The option that a word behind two dashes stands for. -/
def Flag.ofWord? : String → Option Flag
  | "quiet" => some .quiet
  | "verbose" => some .verbose
  | "emit" => some .emit
  | "version" => some .version
  | "help" => some .help
  | _ => none

/-- The option that a letter behind one dash stands for. -/
def Flag.ofLetter? : Char → Option Flag
  | 'q' => some .quiet
  | 'v' => some .verbose
  | 'V' => some .version
  | 'h' => some .help
  | _ => none

/-- The options without a value that may stand in front of a task. -/
def outerFlags : List Flag := [.quiet, .verbose, .version, .help]

/-- The options without a value that may stand behind a task. -/
def innerFlags (emits : Bool) : List Flag :=
  [.quiet, .verbose, .help] ++ if emits then [.emit] else []

/-- Switches an option on, if it is allowed here and not on already. -/
def Given.switch (g : Given) (allowed : List Flag) (flag : Option Flag) : Except Halt Given :=
  match flag with
  | none => throw .unusable
  | some flag =>
    if !allowed.contains flag then throw .unusable
    else
      match flag with
      | .quiet =>
        if g.options.quiet then throw .unusable
        else pure { g with options := { g.options with quiet := true } }
      | .verbose =>
        if g.options.verbose then throw .unusable
        else pure { g with options := { g.options with verbose := true } }
      | .emit => if g.emits then throw .unusable else pure { g with emits := true }
      | .version => throw .version
      | .help => throw .help

def Given.supply (g : Given) (name value : String) : Except Halt Given :=
  match name with
  | "color" =>
    match g.options.color, ColorMode.ofWord? value with
    | none, some mode => pure { g with options := { g.options with color := some mode } }
    | _, _ => throw .unusable
  | "config" =>
    if g.options.config.isSome then throw .unusable
    else pure { g with options := { g.options with config := some value } }
  | _ => throw .unusable

/-- A long option, cut at its first equality sign. -/
def splitLong (argument : String) : String × Option String :=
  let cs := argument.toList.drop 2
  let name := String.ofList (cs.takeWhile (· != '='))
  match cs.dropWhile (· != '=') with
  | [] => (name, none)
  | _ :: value => (name, some (String.ofList value))

def takesValue (name : String) : Bool := name = "color" || name = "config"

/-- Switches on the options whose letters follow one dash. -/
def Given.switchAll (g : Given) (allowed : List Flag) : List Char → Except Halt Given
  | [] => pure g
  | letter :: rest => do (← g.switch allowed (Flag.ofLetter? letter)).switchAll allowed rest

/-- Reads an argument that is an option, with the arguments behind it. -/
def Given.readOption (g : Given) (allowed : List Flag) (argument : String)
    (rest : List String) : Except Halt (Given × List String) := do
  if !"--".toList.isPrefixOf argument.toList then
    pure (← g.switchAll allowed (argument.toList.drop 1), rest)
  else
    let (name, value) := splitLong argument
    if takesValue name then
      match value, rest with
      | some value, _ => pure (← g.supply name value, rest)
      | none, value :: rest =>
        if isOperand value then pure (← g.supply name value, rest) else throw .unusable
      | none, [] => throw .unusable
    else if value.isSome then throw .unusable
    else pure (← g.switch allowed (Flag.ofWord? name), rest)

/-- Reads the arguments of a task, of which it takes at most `most` operands. The bound
is the count of arguments. -/
def readTask (allowed : List Flag) (most : Option Nat) :
    Nat → Given → List String → Except Halt Given
  | _, g, [] => pure g
  | 0, _, _ => throw .unusable
  | bound + 1, g, argument :: rest => do
    let full := most.any (· ≤ g.operands.length)
    if argument = "--" then
      if most.any (· < g.operands.length + rest.length) then throw .unusable
      else pure { g with operands := g.operands ++ rest }
    else if isOperand argument then
      if full then throw .unusable
      else readTask allowed most bound { g with operands := g.operands ++ [argument] } rest
    else
      let (g, rest) ← g.readOption allowed argument rest
      readTask allowed most bound g rest

/-- Reads a task by name with its arguments. -/
def readNamed (before : Options) (name : String) (arguments : List String) :
    Except Halt Invocation := do
  let read (emits : Bool) (most : Option Nat) :=
    readTask (innerFlags emits) most arguments.length {} arguments
  let run (g : Given) (task : Task) := Invocation.run (before.with g.options) task
  match name with
  | "load" =>
    let g ← read true none
    if g.operands.isEmpty then throw .unusable else pure (run g (.load g.operands g.emits))
  | "warm" =>
    let g ← read false (some 1)
    pure (run g (.warm g.operands.head?))
  | "paths" =>
    let g ← read false (some 1)
    match g.operands with
    | [file] => pure (run g (.paths file))
    | _ => throw .unusable
  | "trace" =>
    let g ← read false (some 1)
    match g.operands with
    | [position] => pure (run g (.trace position))
    | _ => throw .unusable
  | "help" =>
    if arguments.all ["load", "warm", "paths", "trace", "help"].contains then pure .help
    else throw .unusable
  | _ => throw .unusable

/-- Reads a command line from its options on. The bound is the count of arguments. -/
def readFrom : Nat → Given → List String → Except Halt Invocation
  | _, _, [] => throw .unusable
  | 0, _, _ => throw .unusable
  | bound + 1, g, argument :: rest => do
    if argument = "--" then throw .unusable
    else if isOperand argument then readNamed g.options argument rest
    else
      let (g, rest) ← g.readOption outerFlags argument rest
      readFrom bound g rest

/-- What a command line asks for, unless it is unusable. -/
def read? (arguments : List String) : Option Invocation :=
  match readFrom arguments.length {} arguments with
  | .ok invocation => some invocation
  | .error .version => some .version
  | .error .help => some .help
  | .error .unusable => none

end ModuleCache.CommandLine
