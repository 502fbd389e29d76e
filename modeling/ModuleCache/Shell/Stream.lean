import ModuleCache.Shell.Regex

/-!
Editing a stream of lines by a script of commands, each of which may be bound to some of
the lines: replacing what has a form, printing, dropping, and stopping.
-/

namespace ModuleCache.Shell.Stream

/-- Which lines a command is meant for. -/
inductive Line where
  | number (n : Nat)
  | last
  | form (r : Regex)

/-- A part of what takes the place of a text. -/
inductive Piece where
  | chars (cs : List Char)
  /-- The text of a group; of all that was found when the number is zero. -/
  | group (number : Nat)

inductive Edit where
  /-- Replaces what has a form: the occurrences from the `first` one on, all of them or
  only that one; may print the line then. -/
  | replace (form : Regex) (pieces : List Piece) (first : Nat) (all prints : Bool)
  | delete
  | print
  | quit
  | mapChars (changes : List (Char × Char))
  | insert (text : List Char)
  | append (text : List Char)
  | change (text : List Char)
  | number

/-- A command: an edit, the lines it is meant for, and whether it is for the others. -/
structure Instruction where
  start : Option Line
  stop : Option Line
  inverted : Bool
  edit : Edit

/-- Reads up to a delimiter, before which a backslash is dropped. -/
def readUpTo (delimiter : Char) : List Char → Option (List Char × List Char)
  | [] => none
  | '\\' :: c :: rest =>
    (readUpTo delimiter rest).map fun (cs, behind) =>
      (if c = delimiter then c :: cs else '\\' :: c :: cs, behind)
  | c :: rest =>
    if c = delimiter then some ([], rest)
    else (readUpTo delimiter rest).map fun (cs, behind) => (c :: cs, behind)

def pieces : List Char → List Piece
  | [] => []
  | '&' :: rest => .group 0 :: pieces rest
  | '\\' :: c :: rest =>
    if c.isDigit then .group (c.toNat - '0'.toNat) :: pieces rest
    else .chars [if c = 'n' then '\n' else if c = 't' then '\t' else c] :: pieces rest
  | c :: rest => .chars [c] :: pieces rest

/-- Reads which lines a command is meant for. -/
def readLine? (extended : Bool) (cs : List Char) : Option (Option Line × List Char) :=
  match cs with
  | '$' :: rest => some (some .last, rest)
  | '/' :: rest => do
    let (form, rest) ← readUpTo '/' rest
    pure (some (.form (← Regex.ofText? extended form)), rest)
  | c :: _ =>
    if c.isDigit then
      some ((String.ofList (cs.takeWhile Char.isDigit)).toNat?.map .number, cs.dropWhile Char.isDigit)
    else some (none, cs)
  | [] => some (none, [])

/-- Blanks and separators in front of a command. -/
def skip (cs : List Char) : List Char := cs.dropWhile fun c => c.isWhitespace || c == ';'

/-- A text behind a command, up to the end of its line. -/
def readText (cs : List Char) : List Char × List Char :=
  let cs := cs.dropWhile (· == ' ')
  let cs := match cs with
    | '\\' :: rest => (rest.dropWhile (· == '\n'))
    | _ => cs
  (cs.takeWhile (· != '\n'), cs.dropWhile (· != '\n'))

def readEdit? (extended : Bool) (cs : List Char) : Option (Edit × List Char) :=
  match cs with
  | 's' :: delimiter :: rest => do
    let (form, rest) ← readUpTo delimiter rest
    let (replacement, rest) ← readUpTo delimiter rest
    let isFlag (c : Char) : Bool := c == 'g' || c == 'p' || c.isDigit
    let flags := rest.takeWhile isFlag
    let first := (String.ofList (flags.filter Char.isDigit)).toNat?.getD 1
    pure (.replace (← Regex.ofText? extended form) (pieces replacement) first (flags.contains 'g')
      (flags.contains 'p'), rest.dropWhile isFlag)
  | 'y' :: delimiter :: rest => do
    let (old, rest) ← readUpTo delimiter rest
    let (new, rest) ← readUpTo delimiter rest
    if old.length = new.length then pure (.mapChars (old.zip new), rest) else none
  | 'd' :: rest => some (.delete, rest)
  | 'p' :: rest => some (.print, rest)
  | 'q' :: rest => some (.quit, rest)
  | '=' :: rest => some (.number, rest)
  | 'i' :: rest => let (text, rest) := readText rest; some (.insert text, rest)
  | 'a' :: rest => let (text, rest) := readText rest; some (.append text, rest)
  | 'c' :: rest => let (text, rest) := readText rest; some (.change text, rest)
  | _ => none

/-- Reads the commands of a script. The bound counts them. -/
def read? (extended : Bool) : Nat → List Char → Option (List Instruction)
  | 0, _ => none
  | bound + 1, cs =>
    match skip cs with
    | [] => some []
    | cs => do
      let (start, rest) ← readLine? extended cs
      let (stop, rest) ← match rest with
        | ',' :: rest => readLine? extended rest
        | _ => pure (none, rest)
      let rest := rest.dropWhile (· == ' ')
      let (inverted, rest) := match rest with
        | '!' :: rest => (true, rest.dropWhile (· == ' '))
        | _ => (false, rest)
      let (edit, rest) ← readEdit? extended rest
      let more ← read? extended bound rest
      pure (⟨start, stop, inverted, edit⟩ :: more)

/-- Replaces the occurrences of a form from some one on. The bound exceeds the length of
the text. -/
def replaceFrom (form : Regex) (pieces : List Piece) (all : Bool) :
    Nat → (skips : Nat) → (isStart : Bool) → List Char → List Char × Bool
  | 0, _, _, cs => (cs, false)
  | bound + 1, skips, isStart, cs =>
    match Regex.find? form isStart [] cs with
    | none => (cs, false)
    | some found =>
      let made := pieces.flatMap fun
        | .chars cs => cs
        | .group 0 => found.text
        | .group n => (found.groups.lookup n).getD []
      let shown := found.before ++ if skips = 0 then made else found.text
      let goOn (more : List Char × Bool) := (shown ++ more.1, more.2 || skips = 0)
      if skips = 0 ∧ !all then (shown ++ found.behind, true)
      else if found.text.isEmpty then
        match found.behind with
        | [] => (shown, skips = 0)
        | c :: rest =>
          let (more, done) := replaceFrom form pieces all bound (skips - 1) false rest
          goOn (c :: more, done)
      else goOn (replaceFrom form pieces all bound (skips - 1) false found.behind)

/-- What happens to one line: what it is now, what is printed in front of it and behind
it, and whether it goes, and whether it is the last one. -/
structure Pass where
  line : List Char
  before : List (List Char) := []
  behind : List (List Char) := []
  isGone : Bool := false
  quits : Bool := false

/-- A line is one that a command is meant for. -/
def Line.isAt (l : Line) (number : Nat) (isLast : Bool) (line : List Char) : Bool :=
  match l with
  | .number n => n == number
  | .last => isLast
  | .form r => (Regex.find? r true [] line).isSome

/-- Whether a command applies to a line, where `isOpen` says whether it applied to the
lines up to it, and whether it goes on applying behind it. -/
def Instruction.applies (i : Instruction) (isOpen : Bool) (number : Nat) (isLast : Bool)
    (line : List Char) : Bool × Bool :=
  match i.start, i.stop with
  | none, _ => (true, false)
  | some start, none => (start.isAt number isLast line, false)
  | some start, some stop =>
    if isOpen then (true, !stop.isAt number isLast line)
    else if start.isAt number isLast line then
      match stop with
      | .number n => (true, decide (number < n))
      | .last => (true, !isLast)
      | .form _ => (true, true)
    else (false, false)

def Edit.perform (e : Edit) (number : Nat) (p : Pass) : Pass :=
  match e with
  | .replace form pieces first all prints =>
    let (line, done) := replaceFrom form pieces all (p.line.length + 2) (first - 1) true p.line
    { p with line, before := if done && prints then p.before ++ [line] else p.before }
  | .delete => { p with isGone := true }
  | .print => { p with before := p.before ++ [p.line] }
  | .quit => { p with quits := true }
  | .mapChars changes => { p with line := p.line.map fun c => (changes.lookup c).getD c }
  | .insert text => { p with before := p.before ++ [text] }
  | .append text => { p with behind := p.behind ++ [text] }
  | .change text => { p with before := p.before ++ [text], isGone := true }
  | .number => { p with before := p.before ++ [(toString number).toList] }

/-- Sends a line through the commands, each with the mark whether it is open. -/
def pass (number : Nat) (isLast : Bool) :
    List (Instruction × Bool) → Pass → Pass × List (Instruction × Bool)
  | [], p => (p, [])
  | (instruction, isOpen) :: rest, p =>
    if p.isGone || p.quits then (p, (instruction, isOpen) :: rest)
    else
      let (applies, staysOpen) := instruction.applies isOpen number isLast p.line
      let p := if applies != instruction.inverted then instruction.edit.perform number p else p
      let (p, rest) := pass number isLast rest p
      (p, (instruction, staysOpen) :: rest)

/-- The lines that come of each of some lines, from a number on. -/
def edit (quiet : Bool) (instructions : List (Instruction × Bool)) (number : Nat) :
    List (List Char) → List (List (List Char))
  | [] => []
  | line :: rest =>
    let (p, instructions) := pass number rest.isEmpty instructions { line }
    let shown := p.before ++ (if quiet || p.isGone then [] else [p.line]) ++ p.behind
    if p.quits then [shown] else shown :: edit quiet instructions (number + 1) rest

end ModuleCache.Shell.Stream
