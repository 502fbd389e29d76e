import ModuleCache.Shell.Pattern

/-!
Regular expressions in their basic and their extended spelling, and the search for the
first place in a text that has the form of one.
-/

namespace ModuleCache.Shell

inductive Regex where
  | empty
  /-- One character. -/
  | one (atom : Atom)
  | seq (first second : Regex)
  | alt (first second : Regex)
  | star (body : Regex)
  /-- A numbered part, which can be named again. -/
  | group (number : Nat) (body : Regex)
  | again (number : Nat)
  | lineStart
  | lineEnd
  deriving Repr

namespace Regex

inductive Sign where
  | open
  | close
  | bar
  | star
  | plus
  | maybe
  | piece (r : Regex)

/-- The ranges between brackets, behind the sign that negates them, and the text behind
the closing bracket. A closing bracket that stands first is one of the characters. -/
def readSet? (cs : List Char) : Option (Atom × List Char) :=
  let (negated, cs) := match cs with
    | '^' :: rest => (true, rest)
    | _ => (false, cs)
  let inside := cs.take 1 ++ (cs.drop 1).takeWhile (· != ']')
  match cs.drop inside.length with
  | ']' :: rest => some (.oneOf negated (ranges (inside.map (·, false))), rest)
  | _ => none

/-- The signs of a regular expression. In the basic spelling a backslash makes a sign of
a parenthesis, a bar, a plus and a question mark; in the extended one it unmakes it. -/
def signs (extended : Bool) (isFirst : Bool) : Nat → List Char → Option (List Sign)
  | 0, _ => none
  | _ + 1, [] => some []
  | bound + 1, c :: rest =>
    let special (c : Char) : Option Sign :=
      [('(', .open), (')', .close), ('|', .bar), ('+', .plus), ('?', .maybe)].lookup c
    let go (sign : Sign) (rest : List Char) : Option (List Sign) :=
      let starts := match sign with
        | .open | .bar => true
        | .piece .lineStart => true
        | _ => false
      (signs extended starts bound rest).map (sign :: ·)
    let plain (c : Char) : Option (List Sign) := go (.piece (.one (.char c))) rest
    match c with
    | '\\' =>
      match rest with
      | [] => none
      | d :: rest =>
        if d.isDigit ∧ d ≠ '0' then go (.piece (.again (d.toNat - '0'.toNat))) rest
        else
          match special d with
          | some sign => go (if extended then .piece (.one (.char d)) else sign) rest
          | none =>
            go (.piece (.one (.char (if d = 'n' then '\n' else if d = 't' then '\t' else d)))) rest
    | '.' => go (.piece (.one .one)) rest
    | '*' => if isFirst then plain c else go .star rest
    | '^' => if isFirst || extended then go (.piece .lineStart) rest else plain c
    | '$' =>
      if extended || rest.isEmpty || rest.take 2 = ['\\', ')'] || rest.take 2 = ['\\', '|'] then
        go (.piece .lineEnd) rest
      else plain c
    | '[' => do
      let (atom, rest) ← readSet? rest
      go (.piece (.one atom)) rest
    | _ =>
      match special c with
      | some sign => if extended then go sign rest else plain c
      | none => plain c

def repeated (r : Regex) : List Sign → Regex × List Sign
  | .star :: rest => repeated (.star r) rest
  | .plus :: rest => repeated (.seq r (.star r)) rest
  | .maybe :: rest => repeated (.alt r .empty) rest
  | rest => (r, rest)

/-- Reads signs up to a closing one: the expression in front of `before`, the count of
groups so far, and the signs behind. -/
def read? : Nat → Nat → Regex → List Sign → Option (Regex × Nat × List Sign)
  | 0, _, _, _ => none
  | _ + 1, groups, before, [] => some (before, groups, [])
  | bound + 1, groups, before, sign :: rest =>
    match sign with
    | .close => some (before, groups, .close :: rest)
    | .bar => do
      let (second, groups, rest) ← read? bound groups .empty rest
      pure (.alt before second, groups, rest)
    | .open => do
      let (inside, after, rest) ← read? bound (groups + 1) .empty rest
      match rest with
      | .close :: rest =>
        let (piece, rest) := repeated (.group (groups + 1) inside) rest
        read? bound after (.seq before piece) rest
      | _ => none
    | .piece r =>
      let (piece, rest) := repeated r rest
      read? bound groups (.seq before piece) rest
    | .star | .plus | .maybe => none

/-- The regular expression that a text spells. -/
def ofText? (extended : Bool) (text : List Char) : Option Regex := do
  let signs ← signs extended true (text.length + 1) text
  match ← read? (2 * signs.length + 2) 0 .empty signs with
  | (r, _, []) => pure r
  | _ => none

/-- A demand of the search: an expression that comes next, the end of a group that began
at a rest of the text, or the demand that less is left than some length. -/
inductive Demand where
  | expect (r : Regex)
  | endGroup (number : Nat) (start : List Char)
  | progress (length : Nat)

/-- The text of each group that ended. -/
abbrev Groups := List (Nat × List Char)

/-- Meets demands one after the other on a text that starts its line or not. Gives what
is left of the text. The bound counts steps. -/
def run : Nat → List Demand → Bool → List Char → Groups → Option (List Char × Groups)
  | 0, _, _, _, _ => none
  | _ + 1, [], _, cs, groups => some (cs, groups)
  | bound + 1, .endGroup number start :: demands, isStart, cs, groups =>
    run bound demands isStart cs ((number, start.take (start.length - cs.length)) :: groups)
  | bound + 1, .progress length :: demands, isStart, cs, groups =>
    if cs.length < length then run bound demands isStart cs groups else none
  | bound + 1, .expect r :: demands, isStart, cs, groups =>
    match r with
    | .empty => run bound demands isStart cs groups
    | .one atom =>
      match cs with
      | c :: rest => if atom.accepts c then run bound demands false rest groups else none
      | [] => none
    | .seq first second => run bound (.expect first :: .expect second :: demands) isStart cs groups
    | .alt first second =>
      (run bound (.expect first :: demands) isStart cs groups).or
        (run bound (.expect second :: demands) isStart cs groups)
    | .star body =>
      (run bound (.expect body :: .progress cs.length :: .expect (.star body) :: demands) isStart cs
        groups).or (run bound demands isStart cs groups)
    | .group number body =>
      run bound (.expect body :: .endGroup number cs :: demands) isStart cs groups
    | .again number =>
      let text := (groups.lookup number).getD []
      if text.isPrefixOf cs then
        run bound demands (isStart && text.isEmpty) (cs.drop text.length) groups
      else none
    | .lineStart => if isStart then run bound demands isStart cs groups else none
    | .lineEnd => if cs.isEmpty then run bound demands isStart cs groups else none

/-- A place that was found: what stands in front of it, its text, what stands behind it
and its groups. -/
structure Found where
  before : List Char
  text : List Char
  behind : List Char
  groups : Groups

/-- The first place in a text with the form of an expression. -/
def find? (r : Regex) (isStart : Bool) (before : List Char) (cs : List Char) : Option Found :=
  match run (200 * (cs.length + 8)) [.expect r] isStart cs [] with
  | some (behind, groups) =>
    some ⟨before.reverse, cs.take (cs.length - behind.length), behind, groups⟩
  | none =>
    match cs with
    | [] => none
    | c :: rest => find? r false (c :: before) rest

end Regex
end ModuleCache.Shell
