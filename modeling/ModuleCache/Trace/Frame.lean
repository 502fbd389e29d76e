import ModuleCache.Path

/-!
Frames of a stack trace. Their lines and columns are counted from one.
-/

namespace ModuleCache

structure Frame where
  /-- The name of the function, if it is known. -/
  function : Option String
  /-- The file that the code was loaded under. -/
  file : Path
  line : UInt32
  column : UInt32
  deriving DecidableEq, Repr

namespace Frame

/-- The place of a frame: file, line and column with colons between them. -/
def place (f : Frame) : String := s!"{f.file.text}:{f.line.toNat}:{f.column.toNat}"

def render (f : Frame) : String :=
  match f.function with
  | some function => s!"at {function} ({f.place})"
  | none => s!"at {f.place}"

end Frame
end ModuleCache
