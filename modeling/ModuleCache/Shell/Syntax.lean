/-!
The command language that transpiler programs are written in: words with quotes and
parameters, and the commands built from them.
-/

namespace ModuleCache.Shell

/-- What takes the place of a parameter that has no value, or that has one. -/
inductive Choice where
  /-- The word, when there is no value. -/
  | orElse
  /-- The word, which also becomes the value, when there is no value. -/
  | assigning
  /-- Nothing: the script ends with the word as its complaint when there is no value. -/
  | failing
  /-- The word when there is a value, and nothing when there is none. -/
  | instead
  deriving DecidableEq, Repr

mutual

/-- A part of a word. What stands in quotes is neither split nor read as a pattern. -/
inductive Part where
  | text (quoted : Bool) (chars : List Char)
  | parameter (quoted : Bool) (name : String)
  /-- The count of bytes of a parameter's value. -/
  | length (quoted : Bool) (name : String)
  /-- The value of a parameter or what is chosen in its place. An empty value may count
  as none. -/
  | choice (quoted : Bool) (name : String) (kind : Choice) (emptyIsNone : Bool) (word : List Part)
  /-- The value of a parameter without what the pattern matches at one of its ends. -/
  | trimmed (quoted : Bool) (name : String) (fromStart longest : Bool) (pattern : List Part)
  /-- What commands print. -/
  | output (quoted : Bool) (commands : List Command)
  /-- The value of an expression of whole numbers. -/
  | number (quoted : Bool) (expression : List Part)

/-- Where a stream is led for the duration of a command. -/
inductive Redirection where
  /-- Input from a file. -/
  | read (file : List Part)
  /-- Input from a text in the script. -/
  | given (content : List Part)
  /-- Output or complaints to a file, which is emptied first unless `appends`. -/
  | write (complaints appends : Bool) (file : List Part)
  /-- Output to where complaints go, or the other way round. -/
  | merge (complaints : Bool)

inductive Command where
  /-- Sets variables, for the duration of the named command if there is one. Behind the
  command stand so many line breaks of the script. -/
  | simple (behind : Nat) (assignments : List (String × List Part)) (words : List (List Part))
  | group (body : List Command)
  /-- Commands whose variables are dropped behind them. -/
  | inner (body : List Command)
  | redirected (body : Command) (redirections : List Redirection)
  | branch (arms : List (List Command × List Command)) (otherwise : List Command)
  /-- Repeats a body as long as the test succeeds, or as long as it fails. -/
  | loop (untilSuccess : Bool) (test body : List Command)
  | each (name : String) (words : List (List Part)) (body : List Command)
  | select (subject : List Part) (arms : List (List (List Part) × List Command))
  | both (first second : Command)
  | either (first second : Command)
  | negated (body : Command)
  /-- The second command reads what the first one prints. -/
  | piped (first second : Command)
  /-- Runs beside what follows; here it has ended before that. -/
  | detached (body : Command)
  | define (name : String) (body : Command)

end

instance : Inhabited Command := ⟨.group []⟩

abbrev Word := List Part

end ModuleCache.Shell
