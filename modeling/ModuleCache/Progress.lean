/-!
Progress lines. A compilation opens a line with the place of its source and closes it
with its outcome, so what is printed is a sequence of whole lines as long as
compilations do not overlap.
-/

namespace ModuleCache.Progress

inductive Style where
  /-- In italics. -/
  | styled
  | plain
  /-- Nothing is printed. -/
  | silent
  deriving DecidableEq, Repr

/-- What opens the line of a compilation. -/
def opening (relative : String) : String := s!"compiling {relative}..."

/-- What closes the line of a compilation that succeeded. -/
def done : String := "Done\n"

/-- What closes the line of a compilation that failed. -/
def failed : String := "failed\n"

/-- A piece of a line in a style. A line break at its end is not emphasised. -/
def Style.render (style : Style) (text : String) : String :=
  match style with
  | .silent => ""
  | .plain => text
  | .styled =>
    match text.toList.getLast? with
    | some '\n' => "\x1b[3m" ++ String.ofList text.toList.dropLast ++ "\x1b[23m\n"
    | _ => "\x1b[3m" ++ text ++ "\x1b[23m"

/-- A printer of progress lines with all it printed. One that is broken prints nothing,
and nobody is told. -/
structure Reporter where
  style : Style
  broken : Bool
  printed : String
  deriving DecidableEq, Repr

def Reporter.new (style : Style) (broken : Bool) : Reporter := ⟨style, broken, ""⟩

def Reporter.print (r : Reporter) (text : String) : Reporter :=
  if r.broken then r else { r with printed := r.printed ++ r.style.render text }

def Reporter.clear (r : Reporter) : Reporter := { r with printed := "" }

end ModuleCache.Progress
