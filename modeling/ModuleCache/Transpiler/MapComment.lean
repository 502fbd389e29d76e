import ModuleCache.Text.Blank
import ModuleCache.Text.Split

/-!
Comments in generated code that name its source map. Artifacts keep their maps under
names of their own, so the lines with such comments are dropped.
-/

namespace ModuleCache.Transpiler

/-- The beginnings of the comments that name a source map. -/
def mapComments : List String := ["//# sourceMappingURL=", "//@ sourceMappingURL="]

/-- A line names a source map and holds nothing in front of that but blanks. -/
def namesMap (line : List Char) : Bool :=
  mapComments.any fun comment => comment.toList.isPrefixOf (Text.trimStart line)

/-- A line that a line break ended, without the carriage return of that. -/
def chomp (line : List Char) : List Char :=
  if line.getLast? = some '\r' then line.dropLast else line

/-- The lines of pieces between line breaks. No line stands behind the last break. -/
def linesOf : List (List Char) → List (List Char)
  | [] => []
  | [last] => if last = [] then [] else [last]
  | piece :: rest => chomp piece :: linesOf rest

def lines (cs : List Char) : List (List Char) := linesOf (Text.split '\n' cs)

/-- The code without the lines that name a source map. -/
def stripMapComments (code : String) : String :=
  let cs := code.toList
  let kept := Text.join '\n' ((lines cs).filter (!namesMap ·))
  String.ofList (if cs.getLast? = some '\n' then kept ++ ['\n'] else kept)

end ModuleCache.Transpiler
