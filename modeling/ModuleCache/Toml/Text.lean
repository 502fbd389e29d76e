import ModuleCache.Json.Text

/-!
The four ways to write a text in TOML: between double quotes with escapes, between
single quotes as it stands, and both over several lines between tripled quotes. Each
reader starts behind the opening quotes and gives what follows the closing ones.
-/

namespace ModuleCache.Toml

def isBlank (c : Char) : Bool := c == ' ' || c == '\t'

/-- A character that needs no escape: the tab, and all but the control characters. -/
def isPlain (c : Char) : Bool := c == '\t' || (0x20 ≤ c.toNat && c.toNat != 0x7F)

def hexNumber? (digits : List Char) : Option Nat :=
  digits.foldlM (fun n c => (Json.hexValue? c).map (16 * n + ·)) 0

/-- The character with a given code, if there is one. -/
def scalar? (code : Nat) : Option Char :=
  if code < 0xD800 ∨ (0xE000 ≤ code ∧ code < 0x110000) then some (Char.ofNat code) else none

/-- The character a one-letter escape stands for. -/
def shortEscape? : Char → Option Char
  | 'b' => some '\x08'
  | 't' => some '\t'
  | 'n' => some '\n'
  | 'f' => some '\x0c'
  | 'r' => some '\r'
  | '"' => some '"'
  | '\\' => some '\\'
  | _ => none

/-- Puts a character in front of a text that was read. -/
def consRead (c : Char) (read : Option (List Char × List Char)) :
    Option (List Char × List Char) :=
  read.map fun (text, rest) => (c :: text, rest)

def readBasic : List Char → Option (List Char × List Char)
  | [] => none
  | '"' :: rest => some ([], rest)
  | '\\' :: 'u' :: a :: b :: c :: d :: rest => do
    consRead (← scalar? (← hexNumber? [a, b, c, d])) (readBasic rest)
  | '\\' :: 'U' :: a :: b :: c :: d :: e :: f :: g :: h :: rest => do
    consRead (← scalar? (← hexNumber? [a, b, c, d, e, f, g, h])) (readBasic rest)
  | '\\' :: letter :: rest => do consRead (← shortEscape? letter) (readBasic rest)
  | c :: rest => if isPlain c ∧ c ≠ '\\' then consRead c (readBasic rest) else none

def readLiteral : List Char → Option (List Char × List Char)
  | [] => none
  | '\'' :: rest => some ([], rest)
  | c :: rest => if isPlain c then consRead c (readLiteral rest) else none

/-- The text goes on with a line break. -/
def startsLine : List Char → Bool
  | '\n' :: _ => true
  | '\r' :: '\n' :: _ => true
  | _ => false

/-- Reads a text between tripled double quotes. A backslash at the end of a line drops
the blanks and line breaks that follow, which is what `dropping` keeps track of. Up to
two quotes may stand in front of the closing ones. -/
def readBasicLines (dropping : Bool) : List Char → Option (List Char × List Char)
  | [] => none
  | '"' :: '"' :: '"' :: '"' :: '"' :: '"' :: _ => none
  | '"' :: '"' :: '"' :: '"' :: rest =>
    consRead '"' (readBasicLines false ('"' :: '"' :: '"' :: rest))
  | '"' :: '"' :: '"' :: rest => some ([], rest)
  | '\\' :: 'u' :: a :: b :: c :: d :: rest => do
    consRead (← scalar? (← hexNumber? [a, b, c, d])) (readBasicLines false rest)
  | '\\' :: 'U' :: a :: b :: c :: d :: e :: f :: g :: h :: rest => do
    consRead (← scalar? (← hexNumber? [a, b, c, d, e, f, g, h])) (readBasicLines false rest)
  | '\\' :: rest =>
    if startsLine (rest.dropWhile isBlank) then readBasicLines true rest
    else match rest with
      | letter :: rest => do consRead (← shortEscape? letter) (readBasicLines false rest)
      | [] => none
  | '\r' :: '\n' :: rest =>
    if dropping then readBasicLines true rest else consRead '\n' (readBasicLines false rest)
  | '\n' :: rest =>
    if dropping then readBasicLines true rest else consRead '\n' (readBasicLines false rest)
  | c :: rest =>
    if dropping ∧ isBlank c then readBasicLines true rest
    else if isPlain c then consRead c (readBasicLines false rest)
    else none

/-- Reads a text between tripled single quotes. -/
def readLiteralLines : List Char → Option (List Char × List Char)
  | [] => none
  | '\'' :: '\'' :: '\'' :: '\'' :: '\'' :: '\'' :: _ => none
  | '\'' :: '\'' :: '\'' :: '\'' :: rest =>
    consRead '\'' (readLiteralLines ('\'' :: '\'' :: '\'' :: rest))
  | '\'' :: '\'' :: '\'' :: rest => some ([], rest)
  | '\r' :: '\n' :: rest => consRead '\n' (readLiteralLines rest)
  | '\n' :: rest => consRead '\n' (readLiteralLines rest)
  | c :: rest => if isPlain c then consRead c (readLiteralLines rest) else none

/-- The text without a line break at its start. -/
def dropLineBreak : List Char → List Char
  | '\n' :: rest => rest
  | '\r' :: '\n' :: rest => rest
  | cs => cs

/-- Reads a text of any of the four forms, with its opening quotes. -/
def readText? : List Char → Option (List Char × List Char)
  | '"' :: '"' :: '"' :: rest => readBasicLines false (dropLineBreak rest)
  | '"' :: rest => readBasic rest
  | '\'' :: '\'' :: '\'' :: rest => readLiteralLines (dropLineBreak rest)
  | '\'' :: rest => readLiteral rest
  | _ => none

end ModuleCache.Toml
