import ModuleCache.Shell.Arithmetic

/-!
The texts that scripts print: escapes behind backslashes, and formats with places for
arguments. Both are made of bytes, as an escape may stand for a byte that begins no
character.
-/

namespace ModuleCache.Shell

def bytesOf (text : String) : List UInt8 := text.toUTF8.toList

/-- The value of digits in base eight. -/
def octal (digits : List Char) : Nat :=
  digits.foldl (fun n c => 8 * n + (c.toNat - '0'.toNat)) 0

def isOctal (c : Char) : Bool := '0' ≤ c && c ≤ '7'

/-- The byte that a letter behind a backslash stands for. -/
def escapeByte? : Char → Option UInt8
  | 'n' => some 10
  | 't' => some 9
  | 'r' => some 13
  | 'a' => some 7
  | 'b' => some 8
  | 'f' => some 12
  | 'v' => some 11
  | '\\' => some 92
  | _ => none

/-- The byte of the escape behind a backslash, and how many characters that takes; none
when the backslash stands for itself. It may be octal: up to three digits. -/
def escape? (cs : List Char) : Option (UInt8 × Nat) :=
  match (cs.take 3).takeWhile isOctal, cs with
  | [], c :: _ => (escapeByte? c).map (·, 1)
  | [], [] => none
  | digits, _ => some (UInt8.ofNat (octal digits), digits.length)

/-- The bytes of a text with escapes, and whether an escape ends all printing. Octal
digits may stand behind a zero that does not count as one of them. -/
def unescape : List Char → List UInt8 × Bool
  | [] => ([], false)
  | '\\' :: 'c' :: _ => ([], true)
  | '\\' :: cs =>
    let extra := match cs with
      | '0' :: d :: _ => if isOctal d then 1 else 0
      | _ => 0
    match escape? (cs.drop extra) with
    | some (byte, used) =>
      let (bytes, ends) := unescape (cs.drop (extra + used))
      (byte :: bytes, ends)
    | none =>
      let (bytes, ends) := unescape cs
      (92 :: bytes, ends)
  | c :: cs =>
    let (bytes, ends) := unescape cs
    (bytesOf c.toString ++ bytes, ends)
termination_by cs => cs.length
decreasing_by all_goals (simp only [List.length_cons, List.length_drop]; omega)

/-- A place of a format: how an argument is shown. -/
structure Place where
  flags : List Char
  width : Option Nat
  precision : Option Nat
  kind : Char

/-- What printing by a format made so far: the bytes, complaints about arguments, the
arguments that are left, and whether an escape ended it. -/
structure Printed where
  bytes : List UInt8 := []
  faults : List String := []
  arguments : List String
  ends : Bool := false

/-- Takes one argument, which is empty when none is left. -/
def Printed.next (p : Printed) : String × Printed :=
  (p.arguments.headD "", { p with arguments := p.arguments.drop 1 })

def Printed.add (p : Printed) (bytes : List UInt8) : Printed := { p with bytes := p.bytes ++ bytes }

/-- Reads the digits of a number, or takes it from the arguments for a star. -/
def readCount (cs : List Char) (p : Printed) : Option Nat × List Char × Printed :=
  match cs with
  | '*' :: rest =>
    let (argument, p) := p.next
    (argument.toNat?, rest, p)
  | _ =>
    match cs.takeWhile Char.isDigit with
    | [] => (none, cs, p)
    | digits => ((String.ofList digits).toNat?, cs.dropWhile Char.isDigit, p)

/-- Reads a place behind its percent sign. -/
def readPlace (cs : List Char) (p : Printed) : Option (Place × List Char × Printed) :=
  let isFlag (c : Char) : Bool := ['-', '+', ' ', '0', '#'].contains c
  let (width, rest, p) := readCount (cs.dropWhile isFlag) p
  let (precision, rest, p) := match rest with
    | '.' :: rest =>
      let (precision, rest, p) := readCount rest p
      (some (precision.getD 0), rest, p)
    | _ => (none, rest, p)
  match rest with
  | kind :: rest => some (⟨cs.takeWhile isFlag, width, precision, kind⟩, rest, p)
  | [] => none

/-- Fills bytes up to the width of a place. -/
def Place.fill (place : Place) (isNumber : Bool) (bytes : List UInt8) : List UInt8 :=
  let missing := place.width.getD 0 - bytes.length
  if place.flags.contains '-' then bytes ++ List.replicate missing 32
  else if isNumber && place.flags.contains '0' && place.precision.isNone then
    match bytes with
    | 45 :: digits => 45 :: (List.replicate missing 48 ++ digits)
    | _ => List.replicate missing 48 ++ bytes
  else List.replicate missing 32 ++ bytes

/-- The digits of a number as the kind of a place asks for them. -/
def Place.digits (place : Place) (n : Nat) : List Char :=
  let digits := match place.kind with
    | 'x' => Nat.toDigits 16 n
    | 'X' => (Nat.toDigits 16 n).map Char.toUpper
    | 'o' => Nat.toDigits 8 n
    | _ => Nat.toDigits 10 n
  List.replicate (place.precision.getD 1 - digits.length) '0' ++ digits

/-- The text of a number at a place. -/
def Place.number (place : Place) (n : Int) : List UInt8 :=
  let sign :=
    if n < 0 then "-" else if place.flags.contains '+' then "+"
    else if place.flags.contains ' ' then " " else ""
  place.fill true (bytesOf (sign ++ String.ofList (place.digits n.natAbs)))

/-- The number of an argument: of what it spells, or of the character behind a quote. -/
def numberOf? (argument : String) : Option Int :=
  match argument.toList with
  | [] => some 0
  | '"' :: c :: _ | '\'' :: c :: _ => some c.toNat
  | _ => Arithmetic.number? argument

/-- Prints the next argument at a place. -/
def Printed.show (p : Printed) (place : Place) : Printed :=
  let (argument, p) := p.next
  let cut (bytes : List UInt8) :=
    match place.precision with
    | some most => bytes.take most
    | none => bytes
  match place.kind with
  | 's' => p.add (place.fill false (cut (bytesOf argument)))
  | 'c' => p.add (place.fill false [(bytesOf argument).headD 0])
  | 'b' =>
    let (bytes, ends) := unescape argument.toList
    { p.add (place.fill false (cut bytes)) with ends }
  | kind =>
    if ['d', 'i', 'u', 'x', 'X', 'o'].contains kind then
      match numberOf? argument with
      | some n => p.add (place.number n)
      | none =>
        { p.add (place.number 0) with
          faults := p.faults ++ [s!"printf: {argument}: expected numeric value"] }
    else
      { p with
        faults := p.faults ++ [s!"printf: %{kind}: invalid directive"]
        ends := true }

/-- One pass through a format. The bound counts its characters. -/
def formatOnce : Nat → List Char → Printed → Printed
  | 0, _, p => p
  | _, [], p => p
  | bound + 1, c :: rest, p =>
    if p.ends then p
    else if c = '%' then
      match rest with
      | '%' :: rest => formatOnce bound rest (p.add [37])
      | _ =>
        match readPlace rest p with
        | some (place, rest, p) => formatOnce bound rest (p.show place)
        | none => { p with ends := true }
    else if c = '\\' then
      match escape? rest with
      | some (byte, used) => formatOnce bound (rest.drop used) (p.add [byte])
      | none => formatOnce bound rest (p.add [92])
    else formatOnce bound rest (p.add (bytesOf c.toString))

/-- Goes through a format as long as it uses up arguments. -/
def formatAll (format : List Char) : Nat → Printed → Printed
  | 0, p => formatOnce format.length format p
  | bound + 1, p =>
    let after := formatOnce format.length format p
    if after.ends || after.arguments.isEmpty || after.arguments.length = p.arguments.length then after
    else formatAll format bound after

end ModuleCache.Shell
