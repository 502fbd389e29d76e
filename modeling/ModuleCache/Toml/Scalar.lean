import ModuleCache.Toml.Table

/-!
The TOML values that are written as a single word: booleans, whole numbers, numbers
with a point or an exponent, dates and times. A word that is none of these is refused,
and so are numbers and dates out of range.
-/

namespace ModuleCache.Toml

/-- The digits of a number in which single underscores may stand between two digits. -/
def spacedDigits? (isDigit : Char → Bool) : List Char → Option (List Char)
  | [] => none
  | [c] => if isDigit c then some [c] else none
  | c :: '_' :: rest => if isDigit c then (spacedDigits? isDigit rest).map (c :: ·) else none
  | c :: rest => if isDigit c then (spacedDigits? isDigit rest).map (c :: ·) else none

/-- The value of a digit of any base up to 16. -/
def digitValue (c : Char) : Nat :=
  if c.isDigit then c.toNat - '0'.toNat else c.toLower.toNat - 'a'.toNat + 10

/-- The number that digits of a base spell. -/
def numberOf (base : Nat) (digits : List Char) : Nat :=
  digits.foldl (fun n c => base * n + digitValue c) 0

/-- Digits of a decimal number: more than one only without a leading zero. -/
def decimal? (word : List Char) : Option (List Char) := do
  let digits ← spacedDigits? Char.isDigit word
  if digits.head? = some '0' ∧ digits.length ≠ 1 then none else pure digits

/-- A sign in front of a word, if it has one, and the rest of the word. -/
def signed (word : List Char) : Bool × List Char :=
  match word with
  | '+' :: rest => (false, rest)
  | '-' :: rest => (true, rest)
  | _ => (false, word)

/-- The number behind the greatest whole number, which has 64 bits with its sign. -/
def integerLimit : Nat := UInt64.size / 2

/-- The word is a whole number that fits into 64 bits. -/
def isInteger (word : List Char) : Bool :=
  let fits (base : Nat) (isDigit : Char → Bool) (digits : List Char) :=
    (spacedDigits? isDigit digits).any fun digits => numberOf base digits < integerLimit
  match word with
  | '0' :: 'x' :: digits =>
    fits 16 (fun c => c.isDigit || ('a' ≤ c && c ≤ 'f') || ('A' ≤ c && c ≤ 'F')) digits
  | '0' :: 'o' :: digits => fits 8 (fun c => '0' ≤ c && c ≤ '7') digits
  | '0' :: 'b' :: digits => fits 2 (fun c => c == '0' || c == '1') digits
  | _ =>
    let (isNegative, digits) := signed word
    (decimal? digits).any fun digits =>
      numberOf 10 digits < integerLimit + if isNegative then 1 else 0

/-- A number written with a point or an exponent. -/
structure Decimal where
  isNegative : Bool
  /-- All digits, as one whole number. -/
  digits : Nat
  /-- The power of ten that the whole number is to be taken times. -/
  exponent : Int
  deriving Repr, DecidableEq

/-- The exponent that a word gives behind its letter. -/
def exponent? (word : List Char) : Option Int := do
  let (isNegative, digits) := signed word
  let digits ← spacedDigits? Char.isDigit digits
  let value := (numberOf 10 digits : Int)
  pure (if isNegative then -value else value)

/-- The number a word with a point or an exponent spells. -/
def decimalPoint? (word : List Char) : Option Decimal := do
  let (isNegative, word) := signed word
  let isExponent (c : Char) : Bool := c == 'e' || c == 'E'
  let mantissa := word.takeWhile (!isExponent ·)
  let power ← match word.dropWhile (!isExponent ·) with
    | [] => some none
    | _ :: power => (exponent? power).map some
  let whole ← decimal? (mantissa.takeWhile (· ≠ '.'))
  let fraction ← match mantissa.dropWhile (· ≠ '.') with
    | [] => some none
    | _ :: fraction => (spacedDigits? Char.isDigit fraction).map some
  if power.isNone ∧ fraction.isNone then none
  else
    let fraction := fraction.getD []
    pure ⟨isNegative, numberOf 10 (whole ++ fraction), power.getD 0 - fraction.length⟩

def tenTo (exponent : Nat) : Nat := Nat.pow 10 exponent

/-- The number rounds to an infinite value in double precision: it is no less than the
middle between the greatest finite value and the next power of two. -/
def Decimal.overflows (d : Decimal) : Bool :=
  let limit := Nat.pow 2 1024 - Nat.pow 2 970
  if d.digits = 0 then false
  else if 400 < d.exponent then true
  else if 0 ≤ d.exponent then limit ≤ d.digits * tenTo d.exponent.toNat
  else
    let places := (-d.exponent).toNat
    if (Nat.log2 d.digits) + 1 < 3 * places then false
    else limit * tenTo places ≤ d.digits

/-- The word is a number in double precision. Only a positive one is held to the range. -/
def isFloat (word : List Char) : Bool :=
  let (_, bare) := signed word
  bare == "inf".toList || bare == "nan".toList ||
    (decimalPoint? word).any fun d => d.isNegative || !d.overflows

/-- The number that exactly `count` digits spell, and what follows them. -/
def fixedDigits? (count : Nat) (word : List Char) : Option (Nat × List Char) :=
  let digits := word.take count
  if digits.length = count ∧ digits.all Char.isDigit then
    some (numberOf 10 digits, word.drop count)
  else none

/-- Reads exactly `count` digits whose number lies between two bounds. -/
def field? (count low high : Nat) (word : List Char) : Option (Nat × List Char) := do
  let (n, rest) ← fixedDigits? count word
  if low ≤ n ∧ n ≤ high then pure (n, rest) else none

def after? (c : Char) : List Char → Option (List Char)
  | d :: rest => if d = c then some rest else none
  | [] => none

/-- The number of days of a month. -/
def daysOf (year month : Nat) : Nat :=
  if month = 2 then
    if year % 4 = 0 ∧ (year % 100 ≠ 0 ∨ year % 400 = 0) then 29 else 28
  else if month = 4 ∨ month = 6 ∨ month = 9 ∨ month = 11 then 30
  else 31

def afterDate? (word : List Char) : Option (List Char) := do
  let (year, word) ← field? 4 0 9999 word
  let (month, word) ← field? 2 1 12 (← after? '-' word)
  let (_, word) ← field? 2 1 (daysOf year month) (← after? '-' word)
  pure word

/-- What follows the fraction of a second, if there is one. -/
def afterFraction? : List Char → Option (List Char)
  | '.' :: rest =>
    if (rest.takeWhile Char.isDigit).isEmpty then none else some (rest.dropWhile Char.isDigit)
  | word => some word

def afterTime? (word : List Char) : Option (List Char) := do
  let (_, word) ← field? 2 0 23 word
  let (_, word) ← field? 2 0 59 (← after? ':' word)
  let (_, word) ← field? 2 0 60 (← after? ':' word)
  afterFraction? word

/-- The word is the distance to universal time, or empty. -/
def isOffset : List Char → Bool
  | [] | ['Z'] | ['z'] => true
  | c :: rest =>
    (c == '+' || c == '-') &&
      (do
        let (_, rest) ← field? 2 0 23 rest
        let (_, rest) ← field? 2 0 59 (← after? ':' rest)
        pure rest) == some []

/-- The word is a time of day, which may say its distance to universal time. -/
def isTimeWithOffset (word : List Char) : Bool := (afterTime? word).any isOffset

def isDate (word : List Char) : Bool := afterDate? word == some []

/-- The word is a date, a time, or a date with a time. -/
def isDateTime (word : List Char) : Bool :=
  isDate word || afterTime? word == some [] ||
    (match afterDate? word with
      | some (c :: time) => (c == 'T' || c == 't') && isTimeWithOffset time
      | _ => false)

/-- A character that words are made of. -/
def isWordChar (c : Char) : Bool :=
  c.isAlphanum || c == '_' || c == '+' || c == '-' || c == '.' || c == ':'

/-- Reads a value that is a single word. A date and a time of day may also stand in two
words with one space between them. -/
def readWord? (cs : List Char) : Option (Value × List Char) :=
  let word := cs.takeWhile isWordChar
  let rest := cs.dropWhile isWordChar
  if word = "true".toList then some (.bool true, rest)
  else if word = "false".toList then some (.bool false, rest)
  else if isDate word then
    match rest with
    | ' ' :: later =>
      if isTimeWithOffset (later.takeWhile isWordChar) then
        some (.datetime, later.dropWhile isWordChar)
      else some (.datetime, rest)
    | _ => some (.datetime, rest)
  else if isDateTime word then some (.datetime, rest)
  else if isInteger word then some (.integer, rest)
  else if isFloat word then some (.float, rest)
  else none

end ModuleCache.Toml
