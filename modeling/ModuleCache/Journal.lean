/-!
Notes about what a program does, for whoever wants to follow it. They are kept apart
from the program's results and can be dropped without changing any of these.
-/

namespace ModuleCache

inductive Level where
  | debug
  | info
  | warn
  | error
  deriving DecidableEq, Repr

/-- The value of a field: a text shown as it is, a text shown in quotes, or a number. -/
inductive FieldValue where
  | plain (text : String)
  | quoted (text : String)
  | number (value : Nat)
  deriving DecidableEq, Repr

structure Note where
  level : Level
  message : String
  fields : List (String × FieldValue)
  deriving DecidableEq, Repr

/-- Notes, the earliest first. -/
abbrev Journal := List Note

end ModuleCache
