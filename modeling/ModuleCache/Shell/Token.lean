import ModuleCache.Shell.Syntax

/-!
What the reader of scripts sees at the start of a text: blanks and comments to skip,
keywords, names, and texts that run up to a closing sign.
-/

namespace ModuleCache.Shell

def isMeta (c : Char) : Bool :=
  c == ' ' || c == '\t' || c == '\n' || c == ';' || c == '&' || c == '|' || c == '<' || c == '>' ||
    c == '(' || c == ')'

def isNameChar (c : Char) : Bool := c.isAlphanum || c == '_'

def isName (cs : List Char) : Bool :=
  match cs with
  | c :: _ => !c.isDigit && cs.all isNameChar
  | [] => false

/-- Skips blanks, continued lines and a comment. -/
def skipBlanks : List Char → List Char
  | ' ' :: rest => skipBlanks rest
  | '\t' :: rest => skipBlanks rest
  | '\\' :: '\n' :: rest => skipBlanks rest
  | '#' :: rest => rest.dropWhile (· != '\n')
  | cs => cs

/-- Skips blanks, line breaks and comments. The bound exceeds the count of lines. -/
def skipLines : Nat → List Char → List Char
  | 0, cs => cs
  | bound + 1, cs =>
    match skipBlanks cs with
    | '\n' :: rest => skipLines bound rest
    | cs => cs

/-- Skips all that may stand between commands. -/
def skipBetween : Nat → List Char → List Char
  | 0, cs => cs
  | bound + 1, cs =>
    match skipBlanks cs with
    | ';' :: ';' :: rest => ';' :: ';' :: rest
    | ';' :: rest => skipBetween bound rest
    | '\n' :: rest => skipBetween bound rest
    | cs => cs

/-- The text up to the end of the next word. -/
def nextToken (cs : List Char) : String := String.ofList (cs.takeWhile (!isMeta ·))

def keyword? (word : String) (cs : List Char) : Option (List Char) :=
  let cs := skipBetween cs.length cs
  if nextToken cs = word then some (cs.drop word.length) else none

/-- What stands up to a closing character, and the text behind that. -/
def upTo? (close : Char) (cs : List Char) : Option (List Char × List Char) :=
  match cs.dropWhile (· != close) with
  | [] => none
  | _ :: rest => some (cs.takeWhile (· != close), rest)

/-- The words that end the commands in front of them. -/
def isCloser (word : String) : Bool :=
  ["then", "else", "elif", "fi", "do", "done", "esac", "\x7d"].contains word

/-- The name of a parameter at the start of a text. In braces a number may have several
digits. -/
def parameterName (inBraces : Bool) (cs : List Char) : Option (String × List Char) :=
  match cs with
  | c :: rest =>
    if c.isDigit && inBraces then
      some (String.ofList (cs.takeWhile Char.isDigit), cs.dropWhile Char.isDigit)
    else if c.isDigit || ['@', '*', '#', '?', '$', '!', '-'].contains c then some (c.toString, rest)
    else if isNameChar c then
      some (String.ofList (cs.takeWhile isNameChar), cs.dropWhile isNameChar)
    else none
  | [] => none

/-- The name of a variable that is set at the start of a text. -/
def assignedName (cs : List Char) : Option (String × List Char) :=
  let name := cs.takeWhile isNameChar
  match cs.dropWhile isNameChar with
  | '=' :: rest => if isName name then some (String.ofList name, rest) else none
  | _ => none

/-- The name of a command that is defined at the start of a text. -/
def definedName (cs : List Char) : Option (String × List Char) :=
  let name := cs.takeWhile isNameChar
  match skipBlanks (cs.dropWhile isNameChar) with
  | '(' :: rest =>
    match skipBlanks rest with
    | ')' :: rest => if isName name then some (String.ofList name, rest) else none
    | _ => none
  | _ => none

/-- What stands up to two closing parentheses in a row, outside of other pairs of them,
and the text behind them. -/
def upToParentheses? : Nat → List Char → Option (List Char × List Char)
  | _, [] => none
  | 0, ')' :: ')' :: rest => some ([], rest)
  | 0, ')' :: _ => none
  | depth + 1, ')' :: rest => (upToParentheses? depth rest).map fun (cs, rest) => (')' :: cs, rest)
  | depth, '(' :: rest => (upToParentheses? (depth + 1) rest).map fun (cs, rest) => ('(' :: cs, rest)
  | depth, c :: rest => (upToParentheses? depth rest).map fun (cs, rest) => (c :: cs, rest)

/-- The commands in back quotes, where a backslash stands in front of some characters,
and the text behind them. -/
def upToBackquote? : List Char → Option (List Char × List Char)
  | [] => none
  | '`' :: rest => some ([], rest)
  | '\\' :: c :: rest =>
    let kept := if ['`', '\\', '$'].contains c then [c] else ['\\', c]
    (upToBackquote? rest).map fun (cs, rest) => (kept ++ cs, rest)
  | c :: rest => (upToBackquote? rest).map fun (cs, rest) => (c :: cs, rest)

/-- The lines up to one that is a given word, and the text behind it. All tabs at the
start of a line may be left out. The bound counts lines. -/
def linesUpTo (dropsTabs : Bool) (word : List Char) : Nat → List Char → List Char × List Char
  | 0, cs => ([], cs)
  | bound + 1, cs =>
    if cs.isEmpty then ([], [])
    else
      let line := cs.takeWhile (· != '\n')
      let line := if dropsTabs then line.dropWhile (· == '\t') else line
      let rest := (cs.dropWhile (· != '\n')).drop 1
      if line = word then ([], rest)
      else
        let (more, rest) := linesUpTo dropsTabs word bound rest
        (line ++ '\n' :: more, rest)

/-- The characters of a word as they are written, and whether some are quoted. -/
def plainWord (word : Word) : List Char × Bool :=
  word.foldl (fun (cs, quoted) part =>
    match part with
    | .text mark chars => (cs ++ chars, quoted || mark)
    | _ => (cs, quoted)) ([], false)

end ModuleCache.Shell
