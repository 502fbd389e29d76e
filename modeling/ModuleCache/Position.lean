/-!
Positions in a text, as source maps count them: lines and columns start at zero.
-/

namespace ModuleCache

/-- A zero-based line and column. -/
structure Position where
  /-- The line, from zero. -/
  line : UInt32
  /-- The column in that line, from zero. -/
  column : UInt32
  deriving Repr, DecidableEq, Inhabited

namespace Position

/-- Line first, then column. -/
protected def compare (a b : Position) : Ordering :=
  (compare a.line b.line).then (compare a.column b.column)

/-- `a` stands at or before `b`. -/
protected def le (a b : Position) : Bool := (Position.compare a b).isLE

/-- The text of a position: line, colon, column. -/
def render (p : Position) : String := s!"{p.line.toNat}:{p.column.toNat}"

end Position

/-- An integer that a word of 32 bits can hold, as that word. -/
def word32? (value : Int) : Option UInt32 :=
  if 0 ≤ value ∧ value < UInt32.size then some (UInt32.ofNat value.toNat) else none

end ModuleCache
