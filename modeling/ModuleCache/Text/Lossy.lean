/-!
Reading bytes as text when some of them are no text. Every longest piece that could
have begun a character and did not becomes one replacement character; all that is
valid stays as it is.
-/

namespace ModuleCache.Text

/-- The ranges that the bytes behind a first byte have to lie in; none for a byte that
begins no character. -/
def followers (first : Nat) : Option (List (Nat × Nat)) :=
  if first < 0x80 then some []
  else if 0xC2 ≤ first ∧ first ≤ 0xDF then some [(0x80, 0xBF)]
  else if first = 0xE0 then some [(0xA0, 0xBF), (0x80, 0xBF)]
  else if first = 0xED then some [(0x80, 0x9F), (0x80, 0xBF)]
  else if 0xE1 ≤ first ∧ first ≤ 0xEF then some [(0x80, 0xBF), (0x80, 0xBF)]
  else if first = 0xF0 then some [(0x90, 0xBF), (0x80, 0xBF), (0x80, 0xBF)]
  else if 0xF1 ≤ first ∧ first ≤ 0xF3 then some [(0x80, 0xBF), (0x80, 0xBF), (0x80, 0xBF)]
  else if first = 0xF4 then some [(0x80, 0x8F), (0x80, 0xBF), (0x80, 0xBF)]
  else none

/-- How many bytes lie in their ranges, from the start on. -/
def countInside : List (Nat × Nat) → List UInt8 → Nat
  | (low, high) :: ranges, byte :: bytes =>
    if low ≤ byte.toNat ∧ byte.toNat ≤ high then countInside ranges bytes + 1 else 0
  | _, _ => 0

/-- The bits that a first byte adds to the code of a character of so many bytes. -/
def leadBits (first followerCount : Nat) : Nat :=
  match followerCount with
  | 0 => first
  | 1 => first - 0xC0
  | 2 => first - 0xE0
  | _ => first - 0xF0

/-- What a character that could not be read becomes. -/
def replacement : Char := '\uFFFD'

def readLossy : List UInt8 → List Char
  | [] => []
  | first :: bytes =>
    match followers first.toNat with
    | none => replacement :: readLossy bytes
    | some ranges =>
      let count := countInside ranges bytes
      let c :=
        if count = ranges.length then
          Char.ofNat <| (bytes.take count).foldl (fun n b => 64 * n + (b.toNat - 0x80))
            (leadBits first.toNat count)
        else replacement
      c :: readLossy (bytes.drop count)
termination_by bytes => bytes.length
decreasing_by all_goals (simp only [List.length_cons, List.length_drop]; omega)

end ModuleCache.Text
