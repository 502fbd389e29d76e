import ModuleCache.Shell.Builtin
import ModuleCache.Shell.Stream

/-!
The programs that read texts and print something made of them: whole files, their first
and last lines, counts, lines that have a form or were edited, and lines in order. Each
gives the status it ends with.
-/

namespace ModuleCache.Shell

/-- The arguments of a program: letters of options, options that have a value, and
operands. -/
structure Parsed where
  letters : List Char := []
  values : List (Char × String) := []
  operands : List String := []

/-- Reads the letters behind one dash, of which some take a value: what follows them, or
the next argument. -/
def parseLetters (valued : List Char) : List Char → List String → Parsed → List String × Parsed
  | [], rest, p => (rest, p)
  | c :: cs, rest, p =>
    if valued.contains c then
      match cs, rest with
      | [], value :: rest => (rest, { p with values := p.values ++ [(c, value)] })
      | cs, rest => (rest, { p with values := p.values ++ [(c, String.ofList cs)] })
    else parseLetters valued cs rest { p with letters := p.letters ++ [c] }

def parse (valued : List Char) : Nat → List String → Parsed → Parsed
  | 0, _, p => p
  | _, [], p => p
  | bound + 1, argument :: rest, p =>
    match argument.toList with
    | ['-', '-'] => { p with operands := p.operands ++ rest }
    | '-' :: c :: cs =>
      let (rest, p) := parseLetters valued (c :: cs) rest p
      parse valued bound rest p
    | _ => parse valued bound rest { p with operands := p.operands ++ [argument] }

/-- The arguments of a program whose options with a value have the given letters. -/
def parsed (valued : List Char) (arguments : List String) : Parsed :=
  parse valued (arguments.length + 1) arguments {}

def takeInput : Action (List UInt8) := do
  let s ← get
  set { s with input := [] }
  pure s.input

/-- The contents of the operands, with their names, or the input when there are none.
Complains about those that cannot be read, and says whether all could be. -/
def readAll (program : String) (operands : List String) :
    Action (List (String × List UInt8) × Bool) := do
  if operands.isEmpty then pure ([("-", ← takeInput)], true)
  else
    let mut contents := []
    let mut complete := true
    for operand in operands do
      if operand = "-" then contents := contents ++ [(operand, ← takeInput)]
      else
        match (← get).fs.readBytes ⟨operand⟩ with
        | .ok content => contents := contents ++ [(operand, content.toList)]
        | .error e =>
          complain s!"{program}: {operand}: {e.reason}"
          complete := false
    pure (contents, complete)

/-- The status of a program that could read all or not. -/
def statusOf (complete : Bool) : Nat := if complete then 0 else 1

/-- The lines of bytes, and whether the last of them has its line break. -/
def linesOf (bytes : List UInt8) : List (List Char) × Bool :=
  let lines := Text.split '\n' (Text.readLossy bytes)
  if lines.getLast? = some [] then (lines.dropLast, true) else (lines, false)

def bytesOfLines (lines : List (List Char)) (closed : Bool) : List UInt8 :=
  let text := lines.flatMap (· ++ ['\n'])
  bytesOf (String.ofList (if closed then text else text.dropLast))

def cat (arguments : List String) : Action Nat := do
  let mut complete := true
  let operands := (parsed [] arguments).operands
  for operand in if operands.isEmpty then ["-"] else operands do
    let (contents, read) ← readAll "cat" (if operand = "-" then [] else [operand])
    contents.forM fun (_, content) => print content
    complete := complete && read
  pure (statusOf complete)

/-- The first bytes of a text with so many line breaks. -/
def firstLines : Nat → List UInt8 → List UInt8
  | 0, _ => []
  | _, [] => []
  | n + 1, byte :: rest => byte :: firstLines (if byte = 10 then n else n + 1) rest

/-- Arguments in which a dash with a number in front asks for so many lines. -/
def withCount (arguments : List String) : List String :=
  match arguments with
  | first :: rest =>
    match first.toList with
    | '-' :: digits =>
      if !digits.isEmpty && digits.all Char.isDigit then "-n" :: String.ofList digits :: rest
      else arguments
    | _ => arguments
  | [] => []

def head (arguments : List String) : Action Nat := do
  let p := parsed ['n', 'c'] (withCount arguments)
  let (contents, complete) ← readAll "head" p.operands
  contents.forM fun (_, content) =>
    match (p.values.lookup 'c').bind (·.toNat?) with
    | some most => print (content.take most)
    | none => print (firstLines (((p.values.lookup 'n').bind (·.toNat?)).getD 10) content)
  pure (statusOf complete)

/-- Prints the ends of texts. A number behind a plus sign says where to begin. -/
def tail (arguments : List String) : Action Nat := do
  let p := parsed ['n', 'c'] (withCount arguments)
  let (contents, complete) ← readAll "tail" p.operands
  contents.forM fun (_, content) =>
    match (p.values.lookup 'c').bind (·.toNat?) with
    | some most => print (content.drop (content.length - most))
    | none =>
      let (lines, closed) := linesOf content
      let kept := match ((p.values.lookup 'n').getD "10").toList with
        | '+' :: digits => lines.drop (((String.ofList digits).toNat?.getD 1) - 1)
        | digits => lines.drop (lines.length - (String.ofList digits).toNat?.getD 10)
      print (bytesOfLines kept closed)
  pure (statusOf complete)

/-- The count of words of a text. -/
def countWords (bytes : List UInt8) : Nat :=
  let isBlank (byte : UInt8) : Bool := byte = 32 || (9 ≤ byte && byte ≤ 13)
  (bytes.foldl (fun (count, inside) byte =>
    if isBlank byte then (count, false) else (if inside then count else count + 1, true))
    (0, false)).1

/-- Counts lines, words and bytes; of several texts also all of them. -/
def wc (arguments : List String) : Action Nat := do
  let p := parsed [] arguments
  let (contents, complete) ← readAll "wc" p.operands
  let asked := if p.letters.isEmpty then ['l', 'w', 'c'] else p.letters
  let all := contents.flatMap (·.2)
  let rows := contents ++ if 1 < p.operands.length then [("total", all)] else []
  rows.forM fun (name, content) => do
    let counts := [('l', content.count 10), ('w', countWords content), ('c', content.length),
      ('m', (Text.readLossy content).length)]
    let shown := (counts.filter fun (letter, _) => asked.contains letter).map fun (_, n) => toString n
    let width :=
      if asked.length = 1 && rows.length = 1 then 0
      else if name = "-" then 7 else (toString all.length).length
    let padded := shown.map fun text => String.ofList (List.replicate (width - text.length) ' ') ++ text
    printLine (" ".intercalate padded ++ if name = "-" then "" else s!" {name}")
  pure (statusOf complete)

/-- The characters that a set names: ranges, escapes, and some classes. -/
def setOf : Nat → List Char → List Char
  | 0, _ => []
  | _, [] => []
  | bound + 1, '[' :: ':' :: rest =>
    let name := String.ofList (rest.takeWhile (· != ':'))
    let range (a b : Char) : List Char :=
      (List.range (b.toNat + 1 - a.toNat)).map fun n => Char.ofNat (a.toNat + n)
    let members := match name with
      | "upper" => range 'A' 'Z'
      | "lower" => range 'a' 'z'
      | "digit" => range '0' '9'
      | "alpha" => range 'A' 'Z' ++ range 'a' 'z'
      | "alnum" => range '0' '9' ++ range 'A' 'Z' ++ range 'a' 'z'
      | "space" => ['\t', '\n', '\x0b', '\x0c', '\r', ' ']
      | "blank" => ['\t', ' ']
      | _ => []
    members ++ setOf bound ((rest.dropWhile (· != ':')).drop 2)
  | bound + 1, '\\' :: rest =>
    match escape? rest with
    | some (byte, used) => Char.ofNat byte.toNat :: setOf bound (rest.drop used)
    | none => setOf bound rest
  | bound + 1, a :: '-' :: b :: rest =>
    (List.range (b.toNat + 1 - a.toNat)).map (fun n => Char.ofNat (a.toNat + n)) ++ setOf bound rest
  | bound + 1, c :: rest => c :: setOf bound rest

/-- Drops what repeats the character in front of it, if that is one of a set. -/
def squeeze (set : List Char) : List Char → List Char
  | a :: b :: rest =>
    if a = b ∧ set.contains a then squeeze set (b :: rest) else a :: squeeze set (b :: rest)
  | cs => cs

/-- Changes, drops or squeezes the characters of the input. -/
def tr (arguments : List String) : Action Nat := do
  let p := parsed [] arguments
  let cs := Text.readLossy (← takeInput)
  let sets := p.operands.map fun operand => setOf (operand.length + 1) operand.toList
  let old := sets.headD []
  let isOld (c : Char) : Bool := old.contains c != (p.letters.contains 'c' || p.letters.contains 'C')
  let made :=
    if p.letters.contains 'd' then cs.filter (!isOld ·)
    else
      match sets with
      | [_, new] =>
        let last := new.getLast?.getD ' '
        let changes := old.zip (new ++ List.replicate (old.length - new.length) last)
        let changed := cs.map fun c =>
          if isOld c then (changes.lookup c).getD last else c
        if p.letters.contains 's' then squeeze new changed else changed
      | _ => if p.letters.contains 's' then squeeze old cs else cs
  print (bytesOf (String.ofList made))
  pure 0

/-- A line as a search that does not tell cases apart sees it. -/
def folded (ignoresCase : Bool) (cs : List Char) : List Char :=
  if ignoresCase then cs.map Char.toLower else cs

/-- Prints the lines that have a form, or says whether there are any. -/
def grep (arguments : List String) : Action Nat := do
  let p := parsed ['e'] arguments
  let has (letter : Char) : Bool := p.letters.contains letter
  let (form, operands) := match p.values.lookup 'e', p.operands with
    | some form, operands => (form, operands)
    | none, form :: operands => (form, operands)
    | none, [] => ("", [])
  let form := folded (has 'i') form.toList
  let found? : Option (List Char → Bool) :=
    if has 'F' then some fun line =>
      (List.range (line.length + 1)).any (fun n => form.isPrefixOf (line.drop n)) &&
        (!has 'x' || line == form)
    else (Regex.ofText? (has 'E') form).map fun r line =>
      let r := if has 'x' then .seq .lineStart (.seq r .lineEnd) else r
      (Regex.find? r true [] line).isSome
  match found? with
  | none =>
    complain "grep: Invalid regular expression"
    pure 2
  | some isFound =>
    let (contents, complete) ← readAll "grep" operands
    let mut any := false
    for (name, content) in contents do
      let (lines, _) := linesOf content
      let kept := (lines.zip (List.range lines.length)).filter fun (line, _) =>
        isFound (folded (has 'i') line) != has 'v'
      any := any || !kept.isEmpty
      let label := if 1 < contents.length && !has 'h' then s!"{name}:" else ""
      if has 'q' then pure ()
      else if has 'l' then (if kept.isEmpty then pure () else printLine name)
      else if has 'c' then printLine s!"{label}{kept.length}"
      else
        for (line, n) in kept do
          printLine (label ++ (if has 'n' then s!"{n + 1}:" else "") ++ String.ofList line)
    pure (if !complete then 2 else if any then 0 else 1)

def sed (arguments : List String) : Action Nat := do
  let p := parsed ['e'] arguments
  let extended := p.letters.contains 'E' || p.letters.contains 'r'
  let scripts := p.values.map (·.2)
  let (script, operands) :=
    if scripts.isEmpty then (p.operands.headD "", p.operands.drop 1)
    else ("\n".intercalate scripts, p.operands)
  match Stream.read? extended (script.length + 1) script.toList with
  | none =>
    complain s!"sed: -e expression #1, char {script.length}: unknown command"
    pure 1
  | some instructions =>
    let edited (content : List UInt8) : List UInt8 :=
      let (lines, closed) := linesOf content
      let made := Stream.edit (p.letters.contains 'n') (instructions.map (·, false)) 1 lines
      let endsOpen := !closed && made.length = lines.length && made.getLast? != some []
      bytesOfLines made.flatten !endsOpen
    if p.letters.contains 'i' then
      for operand in operands do
        match (← get).fs.readBytes ⟨operand⟩ with
        | .ok content =>
          let s ← get
          set { s with
            fs := ((s.fs.writeBytes ⟨operand⟩ ⟨(edited content.toList).toArray⟩).toOption).getD s.fs }
        | .error e => complain s!"sed: can't read {operand}: {e.reason}"
      pure 0
    else
      let (contents, complete) ← readAll "sed" operands
      print (edited (contents.flatMap (·.2)))
      pure (if complete then 0 else 2)

/-- Prints the lines of texts in order. -/
def sort (arguments : List String) : Action Nat := do
  let p := parsed [] arguments
  let (contents, complete) ← readAll "sort" p.operands
  let lines := contents.flatMap fun (_, content) => (linesOf content).1.map String.ofList
  let number (line : String) : Int := (Stream.skip line.toList |>.takeWhile
    (fun c => c.isDigit || c == '-') |> String.ofList).toInt?.getD 0
  let sorted := if p.letters.contains 'n' then
      lines.mergeSort fun a b => decide (number a < number b) || (number a == number b && decide (a ≤ b))
    else lines.mergeSort fun a b => decide (a ≤ b)
  let sorted := if p.letters.contains 'u' then sorted.eraseReps else sorted
  (if p.letters.contains 'r' then sorted.reverse else sorted).forM printLine
  pure (if complete then 0 else 2)

/-- Prints lines without those that repeat the line in front of them. -/
def uniq (arguments : List String) : Action Nat := do
  let (contents, complete) ← readAll "uniq" (parsed [] arguments).operands
  let lines := contents.flatMap fun (_, content) => (linesOf content).1
  (lines.eraseReps.map String.ofList).forM printLine
  pure (statusOf complete)

/-- The numbers that a list of numbers and ranges names, up to a greatest one. -/
def numbersOf (list : String) (most : Nat) : List Nat :=
  (List.range most).map (· + 1) |>.filter fun n =>
    (Text.split ',' list.toList).any fun range =>
      match (Text.split '-' range).map fun digits => (String.ofList digits).toNat? with
      | [some only] => n == only
      | [first, last] => decide (first.getD 1 ≤ n) && decide (n ≤ last.getD most)
      | _ => false

/-- Prints parts of each line: some of its characters, or of its fields. -/
def cut (arguments : List String) : Action Nat := do
  let p := parsed ['c', 'b', 'd', 'f'] arguments
  let (contents, complete) ← readAll "cut" p.operands
  let lines := contents.flatMap fun (_, content) => (linesOf content).1
  let kept (line : List Char) : List Char :=
    match (p.values.lookup 'c').or (p.values.lookup 'b'), p.values.lookup 'f' with
    | some list, _ => (numbersOf list line.length).filterMap fun n => (line.drop (n - 1)).head?
    | none, some list =>
      let delimiter := ((p.values.lookup 'd').bind (·.toList.head?)).getD '\t'
      let fields := Text.split delimiter line
      if fields.length = 1 then (if p.letters.contains 's' then [] else line)
      else Text.join delimiter ((numbersOf list fields.length).filterMap fun n => fields[n - 1]?)
    | none, none => []
  lines.forM fun line => printLine (String.ofList (kept line))
  pure (statusOf complete)

/-- Prints the input, and writes it to files. -/
def tee (arguments : List String) : Action Nat := do
  let p := parsed [] arguments
  let content ← takeInput
  print content
  let mut complete := true
  for operand in p.operands do
    let s ← get
    let before := if p.letters.contains 'a' then
        (s.fs.readBytes ⟨operand⟩).toOption.getD .empty else .empty
    match s.fs.writeBytes ⟨operand⟩ ⟨before.data ++ content.toArray⟩ with
    | .ok fs => set { s with fs }
    | .error e =>
      complain s!"tee: {operand}: {e.reason}"
      complete := false
  pure (statusOf complete)

/-- The program of a name, if it reads texts. -/
def filter? (name : String) (arguments : List String) : Option (Action Nat) :=
  match name with
  | "cat" => some (cat arguments)
  | "head" => some (head arguments)
  | "tail" => some (tail arguments)
  | "wc" => some (wc arguments)
  | "tr" => some (tr arguments)
  | "grep" => some (grep arguments)
  | "sed" => some (sed arguments)
  | "sort" => some (sort arguments)
  | "uniq" => some (uniq arguments)
  | "cut" => some (cut arguments)
  | "tee" => some (tee arguments)
  | _ => none

end ModuleCache.Shell
