/-!
Base64 variable-length quantities, the number format of source map segments. A
value is written in base 32, lowest digit first; every digit but the last carries
the continuation bit 32, and the lowest bit of the whole number is the sign.
-/

namespace ModuleCache.Vlq

/-- Why a segment holds no list of values. -/
inductive Error where
  /-- A character outside the base64 alphabet; `shown` is the character its first
  byte stands for. -/
  | invalidChar (shown : Char)
  /-- The segment ended after a digit with the continuation bit. -/
  | truncated
  /-- A value has a magnitude of more than 32 bits. -/
  | overflow
  deriving Repr, DecidableEq

def Error.message : Error → String
  | .invalidChar c => s!"invalid base64 VLQ character '{c}'"
  | .truncated => "truncated VLQ value"
  | .overflow => "VLQ value overflows 32 bits"

/-- The base64 alphabet, in the order of the digits it stands for. -/
def alphabet : List Char :=
  "ABCDEFGHIJKLMNOPQRSTUVWXYZabcdefghijklmnopqrstuvwxyz0123456789+/".toList

/-- The digit a character of the alphabet stands for. -/
def digit? (c : Char) : Option Nat := alphabet.idxOf? c

/-- The character that stands for a digit below 64. -/
def charOf (digit : Nat) : Char := alphabet.getD digit 'A'

/-- The character whose code is the first byte of the encoding of `c`. An ASCII
character is its own. -/
def leadChar (c : Char) : Char :=
  match String.utf8EncodeChar c with
  | byte :: _ => Char.ofNat byte.toNat
  | [] => c

/-- The greatest magnitude of a decoded value. -/
def maxMagnitude : Nat := UInt32.size - 1

/-- The value a base 32 number stands for: its lowest bit is the sign. -/
def signed (number : Nat) : Int :=
  if number % 2 = 1 then -((number / 2 : Nat) : Int) else ((number / 2 : Nat) : Int)

/-- Decodes the rest of a segment, where `place` digits of the current value were
read already and make up `number`. -/
def decodeFrom (number place : Nat) : List Char → Except Error (List Int)
  | [] => if place = 0 then .ok [] else .error .truncated
  | c :: cs =>
    match digit? c with
    | none => .error (.invalidChar (leadChar c))
    | some digit =>
      if 7 ≤ place then .error .overflow
      else
        let number := number + digit % 32 * Nat.pow 32 place
        if 32 ≤ digit then decodeFrom number (place + 1) cs
        else if maxMagnitude < number / 2 then .error .overflow
        else (decodeFrom 0 0 cs).map (signed number :: ·)

def decode (segment : String) : Except Error (List Int) :=
  decodeFrom 0 0 segment.toList

/-- The number that stands for a value: magnitude doubled, sign in the lowest bit.
The doubling happens in a word of 64 bits, so the top bit of `-2^63` is lost. -/
def unsigned (value : Int) : Nat :=
  2 * value.natAbs % UInt64.size + if value < 0 then 1 else 0

/-- The base 32 digits of a number, lowest first, each but the last with the
continuation bit. -/
def digits (number : Nat) : List Nat :=
  if number < 32 then [number] else (number % 32 + 32) :: digits (number / 32)
termination_by number
decreasing_by omega

def encodeValue (value : Int) : List Char := (digits (unsigned value)).map charOf

/-- The segment that packs `values`. -/
def encode (values : List Int) : String := String.ofList (values.flatMap encodeValue)

end ModuleCache.Vlq
