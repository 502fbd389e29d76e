import ModuleCache.Toml.Text
import ModuleCache.Toml.Scalar

/-!
TOML documents: statements line by line, each a header or a key with its value. A
document is read into the table that its statements build up, or refused.
-/

namespace ModuleCache.Toml

def skipBlanks (cs : List Char) : List Char := cs.dropWhile isBlank

/-- Drops a comment up to the end of its line. A comment holds no control character. -/
def skipComment (cs : List Char) : List Char :=
  match cs with
  | '#' :: rest => rest.dropWhile isPlain
  | _ => cs

/-- Ends a statement: blanks, a comment, and a line break or the end of the text. -/
def endLine? (cs : List Char) : Option (List Char) :=
  match skipComment (skipBlanks cs) with
  | [] => some []
  | '\n' :: rest => some rest
  | '\r' :: '\n' :: rest => some rest
  | _ => none

/-- Drops blanks, line breaks and comments between the parts of an array. -/
def skipSpace (inComment : Bool) : List Char → List Char
  | [] => []
  | '\n' :: rest => skipSpace false rest
  | '\r' :: '\n' :: rest => skipSpace false rest
  | c :: rest =>
    if inComment then (if isPlain c then skipSpace true rest else c :: rest)
    else if isBlank c then skipSpace false rest
    else if c = '#' then skipSpace true rest
    else c :: rest

/-- A character of a key that is written without quotes. -/
def isBare (c : Char) : Bool := c.isAlphanum || c == '_' || c == '-'

def readKeyPart (cs : List Char) : Option (String × List Char) :=
  match cs with
  | '"' :: rest => (readBasic rest).map fun (key, rest) => (String.ofList key, rest)
  | '\'' :: rest => (readLiteral rest).map fun (key, rest) => (String.ofList key, rest)
  | _ =>
    match cs.takeWhile isBare with
    | [] => none
    | key => some (String.ofList key, cs.dropWhile isBare)

/-- Arrays, inline tables and the parts of a key are nested less deep than this. -/
def depthLimit : Nat := 80

/-- Reads a key of fewer than `room` parts, with the blanks around its parts. -/
def readKeyParts : Nat → List Char → Option (List String × List Char)
  | 0, _ => none
  | room + 1, cs => do
    let (part, rest) ← readKeyPart (skipBlanks cs)
    match skipBlanks rest with
    | '.' :: rest => (readKeyParts room rest).map fun (parts, rest) => (part :: parts, rest)
    | rest => pure ([part], rest)

/-- Reads a key: its parts but the last, and the last. -/
def readKey (cs : List Char) : Option (List String × String × List Char) := do
  let (parts, rest) ← readKeyParts (depthLimit - 1) cs
  let last ← parts.getLast?
  pure (parts.dropLast, last, rest)

mutual

/-- Reads a value inside `depth` others. The bound counts nested readers and is never
met when it is at least twice the length of the text. -/
def readValue : Nat → Nat → List Char → Option (Value × List Char)
  | 0, _, _ => none
  | bound + 1, depth, cs =>
    match cs with
    | '[' :: rest =>
      if depthLimit ≤ depth + 1 then none
      else (readItems bound (depth + 1) rest).map fun (items, rest) => (.array items, rest)
    | '\x7b' :: rest =>
      if depthLimit ≤ depth + 1 then none
      else match skipBlanks rest with
        | '\x7d' :: rest => some (.inline [], rest)
        | rest =>
          (readPairs bound (depth + 1) [] rest).map fun (entries, rest) =>
            (.inline entries, rest)
    | '"' :: _ | '\'' :: _ =>
      (readText? cs).map fun (text, rest) => (.text (String.ofList text), rest)
    | _ => readWord? cs

/-- Reads the items of an array up to its closing bracket; a comma may stand behind the
last one. -/
def readItems : Nat → Nat → List Char → Option (List Value × List Char)
  | 0, _, _ => none
  | bound + 1, depth, cs =>
    match skipSpace false cs with
    | ']' :: rest => some ([], rest)
    | cs => do
      let (item, rest) ← readValue bound depth cs
      match skipSpace false rest with
      | ',' :: rest =>
        (readItems bound depth rest).map fun (items, rest) => (item :: items, rest)
      | ']' :: rest => pure ([item], rest)
      | _ => none

/-- Reads the keys and values of an inline table behind `entries`, up to its closing
brace. -/
def readPairs : Nat → Nat → Entries → List Char → Option (Entries × List Char)
  | 0, _, _, _ => none
  | bound + 1, depth, entries, cs => do
    let (path, key, rest) ← readKey cs
    let rest ← after? '=' rest
    let (value, rest) ← readValue bound depth (skipBlanks rest)
    let (_, entries) ← addEntry path key value .header entries
    match skipBlanks rest with
    | ',' :: rest => readPairs bound depth entries rest
    | '\x7d' :: rest => pure (entries, rest)
    | _ => none

end

inductive Statement where
  | entry (path : List String) (key : String) (value : Value)
  | table (path : List String) (key : String)
  | item (path : List String) (key : String)
  deriving Repr

def readStatement (cs : List Char) : Option (Statement × List Char) :=
  match cs with
  | '[' :: '[' :: rest => do
    let (path, key, rest) ← readKey rest
    let rest ← after? ']' (← after? ']' rest)
    pure (.item path key, rest)
  | '[' :: rest => do
    let (path, key, rest) ← readKey rest
    pure (.table path key, ← after? ']' rest)
  | _ => do
    let (path, key, rest) ← readKey cs
    let rest ← after? '=' rest
    let (value, rest) ← readValue (2 * rest.length + 2) 0 (skipBlanks rest)
    pure (.entry path key value, rest)

/-- The document read so far, and the header that entries belong to. -/
structure Progress where
  entries : Entries
  header : List String
  deriving Repr

def Progress.add (d : Progress) : Statement → Option Progress
  | .entry path key value => do
    let (_, entries) ← changeAt false (addEntry path key value) d.header .header d.entries
    pure { d with entries }
  | .table path key => do
    let (_, entries) ← openTable path key .header d.entries
    pure ⟨entries, path ++ [key]⟩
  | .item path key => do
    let (_, entries) ← openItem path key .header d.entries
    pure ⟨entries, path ++ [key]⟩

/-- Reads the lines of a document. The bound counts lines and is never met when it
exceeds the length of the text. -/
def readLines : Nat → Progress → List Char → Option Entries
  | 0, _, _ => none
  | bound + 1, d, cs =>
    match skipBlanks cs with
    | [] => some d.entries
    | c :: rest =>
      if c = '#' ∨ c = '\n' ∨ c = '\r' then do
        readLines bound d (← endLine? (c :: rest))
      else do
        let (statement, rest) ← readStatement (c :: rest)
        readLines bound (← d.add statement) (← endLine? rest)

/-- The entries of the table a text describes. A byte order mark may stand in front. -/
def parse? (text : String) : Option Entries :=
  let cs := text.toList
  let cs := if cs.head? = some '\uFEFF' then cs.drop 1 else cs
  readLines (cs.length + 1) ⟨[], []⟩ cs

end ModuleCache.Toml
