/-!
Patterns of the command language: a star stands for any text, a question mark for any
character, brackets for one of the characters in them, and anything else for itself.
-/

namespace ModuleCache.Shell

/-- A character with the mark that it stands in quotes. -/
abbrev Marked := Char × Bool

/-- What a pattern asks for at one place. -/
inductive Atom where
  | char (c : Char)
  | one
  | many
  /-- A character in one of the ranges, or in none of them. -/
  | oneOf (negated : Bool) (ranges : List (Char × Char))
  deriving DecidableEq, Repr

/-- The ranges between the brackets of a pattern. -/
def ranges : List Marked → List (Char × Char)
  | (a, _) :: ('-', false) :: (b, _) :: rest => (a, b) :: ranges rest
  | (a, _) :: rest => (a, a) :: ranges rest
  | [] => []

/-- The pattern that marked characters stand for. -/
def atoms : List Marked → List Atom
  | [] => []
  | ('*', false) :: rest => .many :: atoms rest
  | ('?', false) :: rest => .one :: atoms rest
  | ('[', false) :: rest =>
    let negated := rest.head? == some ('!', false) || rest.head? == some ('^', false)
    let first := rest.take (if negated then 2 else 1)
    let more := rest.drop first.length
    let inside := first ++ more.takeWhile (· != (']', false))
    match more.dropWhile (· != (']', false)) with
    | [] => .char '[' :: atoms rest
    | _ :: _ =>
      .oneOf negated (ranges (if negated then inside.drop 1 else inside)) ::
        atoms (rest.drop (inside.length + 1))
  | (c, _) :: rest => .char c :: atoms rest
termination_by cs => cs.length
decreasing_by all_goals (simp only [List.length_cons, List.length_drop]; omega)

/-- An atom that stands for one character accepts it. -/
def Atom.accepts (c : Char) : Atom → Bool
  | .char d => c == d
  | .one => true
  | .many => false
  | .oneOf negated ranges => ranges.any (fun (a, b) => a ≤ c && c ≤ b) != negated

/-- A text has the form of a pattern. -/
def isMatch : List Atom → List Char → Bool
  | [], cs => cs.isEmpty
  | .many :: rest, [] => isMatch rest []
  | .many :: rest, c :: cs => isMatch rest (c :: cs) || isMatch (.many :: rest) cs
  | _ :: _, [] => false
  | atom :: rest, c :: cs => atom.accepts c && isMatch rest cs
termination_by atoms cs => atoms.length + cs.length

/-- A text without the shortest or longest of its beginnings that match. -/
def trimStart (longest : Bool) (pattern : List Atom) (cs : List Char) : List Char :=
  let cuts := (List.range (cs.length + 1)).filter fun n => isMatch pattern (cs.take n)
  match if longest then cuts.getLast? else cuts.head? with
  | some n => cs.drop n
  | none => cs

/-- A text without the shortest or longest of its endings that match. -/
def trimEnd (longest : Bool) (pattern : List Atom) (cs : List Char) : List Char :=
  let cuts := (List.range (cs.length + 1)).filter fun n => isMatch pattern (cs.drop n)
  match if longest then cuts.head? else cuts.getLast? with
  | some n => cs.take n
  | none => cs

end ModuleCache.Shell
