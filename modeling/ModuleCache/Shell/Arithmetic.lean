/-!
Expressions of whole numbers as scripts write them: numbers in three bases, variables,
the usual operators with their ranks, parentheses, and a choice by a question mark.
-/

namespace ModuleCache.Shell.Arithmetic

/-- The binary operators from the weakest rank to the strongest. -/
def ranks : List (List String) :=
  [["||"], ["&&"], ["|"], ["^"], ["&"], ["==", "!="], ["<=", ">=", "<", ">"], ["<<", ">>"],
    ["+", "-"], ["*", "/", "%"]]

def ofBool (b : Bool) : Int := if b then 1 else 0

/-- The power of two for a distance. -/
def twoTo (distance : Int) : Int := Int.ofNat (Nat.pow 2 distance.toNat)

/-- What an operator makes of two numbers that are not negative, bit by bit. -/
def bitwise (operator : Nat → Nat → Nat) (a b : Int) : Int := Int.ofNat (operator a.toNat b.toNat)

/-- What a binary operator makes of two numbers; nothing can be divided by zero. -/
def apply (operator : String) (a b : Int) : Option Int :=
  match operator with
  | "||" => some (ofBool (a != 0 || b != 0))
  | "&&" => some (ofBool (a != 0 && b != 0))
  | "|" => some (bitwise Nat.lor a b)
  | "^" => some (bitwise Nat.xor a b)
  | "&" => some (bitwise Nat.land a b)
  | "==" => some (ofBool (a == b))
  | "!=" => some (ofBool (a != b))
  | "<=" => some (ofBool (decide (a ≤ b)))
  | ">=" => some (ofBool (decide (b ≤ a)))
  | "<" => some (ofBool (decide (a < b)))
  | ">" => some (ofBool (decide (b < a)))
  | "<<" => some (a * twoTo b)
  | ">>" => some (a.fdiv (twoTo b))
  | "+" => some (a + b)
  | "-" => some (a - b)
  | "*" => some (a * b)
  | "/" => if b = 0 then none else some (a.tdiv b)
  | "%" => if b = 0 then none else some (a.tmod b)
  | _ => none

/-- The text without blanks at its start. -/
def skip (cs : List Char) : List Char := cs.dropWhile (·.isWhitespace)

/-- The operator of a rank at the start of a text. One of them may be the start of
another operator, which then it is not. -/
def operator? (rank : List String) (cs : List Char) : Option (String × List Char) :=
  let cs := skip cs
  rank.findSome? fun operator =>
    let rest := cs.drop operator.length
    if !operator.toList.isPrefixOf cs then none
    else if operator.length = 1 ∧ ["|", "&", "<", ">"].contains operator ∧
        rest.head? = operator.toList.head? then none
    else some (operator, rest)

/-- The value of a digit of any base up to 16. -/
def digit? (base : Nat) (c : Char) : Option Nat :=
  let value :=
    if c.isDigit then c.toNat - '0'.toNat
    else if c.isAlpha then c.toLower.toNat - 'a'.toNat + 10
    else base
  if value < base then some value else none

/-- The number that a text spells, in the base that its start says. -/
def number? (text : String) : Option Int := do
  let (isNegative, cs) := match text.toList with
    | '-' :: rest => (true, rest)
    | '+' :: rest => (false, rest)
    | cs => (false, cs)
  let (base, digits) := match cs with
    | '0' :: 'x' :: digits | '0' :: 'X' :: digits => (16, digits)
    | '0' :: digits => (8, '0' :: digits)
    | digits => (10, digits)
  if digits.isEmpty then none
  else
    let n ← digits.foldlM (fun n c => (digit? base c).map (base * n + ·)) 0
    pure (if isNegative then -Int.ofNat n else Int.ofNat n)

mutual

/-- Reads an expression: a choice, or operators of the weakest rank. -/
def readChoice (value : String → Option Int) : Nat → List Char → Option (Int × List Char)
  | 0, _ => none
  | bound + 1, cs => do
    let (test, rest) ← readRank value bound ranks cs
    match skip rest with
    | '?' :: rest => do
      let (first, rest) ← readChoice value bound rest
      match skip rest with
      | ':' :: rest => do
        let (second, rest) ← readChoice value bound rest
        pure (if test = 0 then second else first, rest)
      | _ => none
    | rest => pure (test, rest)

/-- Reads operators of the first of the ranks, and of the others between them. -/
def readRank (value : String → Option Int) :
    Nat → List (List String) → List Char → Option (Int × List Char)
  | 0, _, _ => none
  | bound + 1, [], cs => readOperand value bound cs
  | bound + 1, rank :: ranks, cs => do
    let (first, rest) ← readRank value bound ranks cs
    readMore value bound rank ranks first rest

/-- Reads what operators of a rank add to a number. -/
def readMore (value : String → Option Int) :
    Nat → List String → List (List String) → Int → List Char → Option (Int × List Char)
  | 0, _, _, _, _ => none
  | bound + 1, rank, ranks, first, cs =>
    match operator? rank cs with
    | none => some (first, cs)
    | some (operator, rest) => do
      let (second, rest) ← readRank value bound ranks rest
      readMore value bound rank ranks (← apply operator first second) rest

/-- Reads a number, a variable, an expression in parentheses or one behind a sign. -/
def readOperand (value : String → Option Int) : Nat → List Char → Option (Int × List Char)
  | 0, _ => none
  | bound + 1, cs =>
    match skip cs with
    | '(' :: rest => do
      let (inside, rest) ← readChoice value bound rest
      match skip rest with
      | ')' :: rest => pure (inside, rest)
      | _ => none
    | '-' :: rest => (readOperand value bound rest).map fun (n, rest) => (-n, rest)
    | '+' :: rest => readOperand value bound rest
    | '!' :: rest => (readOperand value bound rest).map fun (n, rest) => (ofBool (n == 0), rest)
    | '~' :: rest => (readOperand value bound rest).map fun (n, rest) => (-n - 1, rest)
    | cs =>
      let isPart (c : Char) : Bool := c.isAlphanum || c == '_'
      let word := String.ofList (cs.takeWhile isPart)
      match word.toList with
      | [] => none
      | c :: _ =>
        (if c.isDigit then number? word else value word).map (·, cs.dropWhile isPart)

end

/-- The value of an expression whose variables have the given values. -/
def evaluate? (value : String → Option Int) (text : String) : Option Int :=
  match readChoice value (16 * text.length + 32) text.toList with
  | some (n, rest) => if (skip rest).isEmpty then some n else none
  | none => if (skip text.toList).isEmpty then some 0 else none

end ModuleCache.Shell.Arithmetic
