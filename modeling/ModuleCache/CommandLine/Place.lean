import ModuleCache.Text.Split

/-!
Places in generated code as they are given on a command line: a file, a line and a
column with colons between them, the last two counted from one. The file may hold
colons of its own.
-/

namespace ModuleCache.CommandLine

/-- A line and a column of a file, both counted from one. -/
structure Place where
  file : String
  line : UInt32
  column : UInt32
  deriving DecidableEq, Repr

namespace Place

inductive Error where
  /-- It has fewer than two colons. -/
  | shape (text : String)
  | missingFile (text : String)
  | line (text : String)
  | column (text : String)
  /-- Line or column is zero. -/
  | zero (text : String)
  deriving DecidableEq, Repr

def Error.message : Error → String
  | .shape text => s!"invalid position '{text}' (expected <file>:<line>:<column>)"
  | .missingFile text => s!"invalid position '{text}': missing file"
  | .line text => s!"invalid line number in '{text}'"
  | .column text => s!"invalid column number in '{text}'"
  | .zero text => s!"position '{text}' is one-based; line and column start at 1"

def decimal (digits : List Char) : Nat :=
  digits.foldl (fun n c => 10 * n + (c.toNat - '0'.toNat)) 0

/-- Decimal digits, perhaps behind one plus sign, for a number below `2^32`. -/
def number? (cs : List Char) : Option UInt32 :=
  let digits := if cs.head? = some '+' then cs.drop 1 else cs
  if digits = [] ∨ !digits.all Char.isDigit ∨ UInt32.size ≤ decimal digits then none
  else some (UInt32.ofNat (decimal digits))

def parse (text : String) : Except Error Place :=
  match Text.splitLast? ':' text.toList with
  | none => .error (.shape text)
  | some (rest, column) =>
    match Text.splitLast? ':' rest with
    | none => .error (.shape text)
    | some (file, line) =>
      if file = [] then .error (.missingFile text)
      else
        match number? line, number? column with
        | none, _ => .error (.line text)
        | some _, none => .error (.column text)
        | some line, some column =>
          if line = 0 ∨ column = 0 then .error (.zero text)
          else .ok ⟨String.ofList file, line, column⟩

end Place
end ModuleCache.CommandLine
