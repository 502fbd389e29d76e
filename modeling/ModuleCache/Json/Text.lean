/-!
JSON string literals: the quoted form of a text, and the reader of quoted forms. A
quoted form may spell characters by escaped code units, and a surrogate that has no
partner spells no text at all; the reader accepts such a literal and says so.
-/

namespace ModuleCache.Json

/-- The digit of a number below 16, in lower case. -/
def hexDigit (n : Nat) : Char := "0123456789abcdef".toList.getD n '0'

/-- The value of a hexadecimal digit of either case. -/
def hexValue? (c : Char) : Option Nat :=
  if '0' ≤ c ∧ c ≤ '9' then some (c.toNat - '0'.toNat)
  else if 'a' ≤ c ∧ c ≤ 'f' then some (c.toNat - 'a'.toNat + 10)
  else if 'A' ≤ c ∧ c ≤ 'F' then some (c.toNat - 'A'.toNat + 10)
  else none

/-- A character as it stands in a quoted text. Quotes, backslashes and control
characters are escaped, and nothing else. -/
def escape (c : Char) : List Char :=
  match c with
  | '"' => ['\\', '"']
  | '\\' => ['\\', '\\']
  | '\x08' => ['\\', 'b']
  | '\x0c' => ['\\', 'f']
  | '\n' => ['\\', 'n']
  | '\r' => ['\\', 'r']
  | '\t' => ['\\', 't']
  | c =>
    if c.toNat < 0x20 then ['\\', 'u', '0', '0', hexDigit (c.toNat / 16), hexDigit (c.toNat % 16)]
    else [c]

def quote (text : String) : List Char := '"' :: (text.toList.flatMap escape ++ ['"'])

/-- What one place of a quoted text spells: a character, or a code unit given by its
number. -/
inductive Spelled where
  | char (c : Char)
  | unit (code : Nat)
  deriving Repr, DecidableEq

/-- The character a one-letter escape stands for. -/
def shortEscape? : Char → Option Char
  | '"' => some '"'
  | '\\' => some '\\'
  | '/' => some '/'
  | 'b' => some '\x08'
  | 'f' => some '\x0c'
  | 'n' => some '\n'
  | 'r' => some '\r'
  | 't' => some '\t'
  | _ => none

/-- Reads a quoted text behind its opening quote, up to its closing one. -/
def readSpelled : List Char → Option (List Spelled × List Char)
  | [] => none
  | '"' :: rest => some ([], rest)
  | '\\' :: 'u' :: a :: b :: c :: d :: rest => do
    let a ← hexValue? a
    let b ← hexValue? b
    let c ← hexValue? c
    let d ← hexValue? d
    let (spelled, rest) ← readSpelled rest
    pure (.unit (((a * 16 + b) * 16 + c) * 16 + d) :: spelled, rest)
  | '\\' :: letter :: rest => do
    let c ← shortEscape? letter
    let (spelled, rest) ← readSpelled rest
    pure (.char c :: spelled, rest)
  | c :: rest =>
    if c.toNat < 0x20 ∨ c = '\\' then none
    else do
      let (spelled, rest) ← readSpelled rest
      pure (.char c :: spelled, rest)

/-- The first half of a surrogate pair. -/
def isHighSurrogate (code : Nat) : Bool := 0xD800 ≤ code && code < 0xDC00

/-- The second half of a surrogate pair. -/
def isLowSurrogate (code : Nat) : Bool := 0xDC00 ≤ code && code < 0xE000

/-- The text that is spelled, if every surrogate has its partner right beside it. -/
def spelledText? : List Spelled → Option (List Char)
  | [] => some []
  | .char c :: rest => (spelledText? rest).map (c :: ·)
  | .unit code :: rest =>
    if isLowSurrogate code then none
    else if isHighSurrogate code then
      match rest with
      | .unit low :: rest =>
        if isLowSurrogate low then
          (spelledText? rest).map
            (Char.ofNat (0x10000 + (code - 0xD800) * 0x400 + (low - 0xDC00)) :: ·)
        else none
      | _ => none
    else (spelledText? rest).map (Char.ofNat code :: ·)

end ModuleCache.Json
