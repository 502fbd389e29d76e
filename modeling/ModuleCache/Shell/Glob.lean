import ModuleCache.Shell.State

/-!
Words that stand for the names of files: a word with a pattern in it becomes the paths
that have its form, in order, and stays as it is when there is none.
-/

namespace ModuleCache.Shell

/-- The character makes a pattern of a word. -/
def isMagic (entry : Marked) : Bool :=
  !entry.2 && (entry.1 == '*' || entry.1 == '?' || entry.1 == '[')

/-- The pieces of a word between its slashes. -/
def piecesOf (word : List Marked) : List (List Marked) :=
  word.foldr (fun entry pieces =>
    if entry.1 = '/' then [] :: pieces
    else
      match pieces with
      | piece :: rest => (entry :: piece) :: rest
      | [] => [[entry]]) [[]]

/-- The names in a directory that have the form of a piece. Names that begin with a dot
are passed over by a piece that does not begin with one. -/
def namesLike (fs : FileSystem) (directory : String) (piece : List Marked) : List String :=
  let names := (fs.names ⟨if directory = "" then "." else directory⟩).toOption.getD []
  let isHidden (name : String) : Bool := name.toList.head? = some '.'
  let asksHidden := (piece.head?.map (·.1)) = some '.'
  (names.filter fun name => isMatch (atoms piece) name.toList && (asksHidden || !isHidden name)).mergeSort
    fun a b => decide (a ≤ b)

/-- The paths that pieces lead to from a beginning. -/
def pathsLike (fs : FileSystem) (start : String) : List (List Marked) → List String
  | [] => []
  | [piece] =>
    if piece.any isMagic then (namesLike fs start piece).map (start ++ ·)
    else
      let path := start ++ unmark piece
      if fs.existsAt ⟨path⟩ then [path] else []
  | piece :: rest =>
    let names := if piece.any isMagic then namesLike fs start piece else [unmark piece]
    names.flatMap fun name =>
      let directory := start ++ name ++ "/"
      if fs.isDirectory ⟨directory⟩ then pathsLike fs directory rest else []

/-- The texts that a word stands for. -/
def globbed (fs : FileSystem) (word : List Marked) : List String :=
  if word.any isMagic then
    match pathsLike fs "" (piecesOf word) with
    | [] => [unmark word]
    | paths => paths
  else [unmark word]

end ModuleCache.Shell
