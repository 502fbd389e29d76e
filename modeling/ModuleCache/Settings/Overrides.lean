import ModuleCache.Text.Blank

/-!
What the environment says about the settings. Its variables are read once; they win
over the configuration document.
-/

namespace ModuleCache

/-- The variables of an environment with their values. -/
abbrev Environment := List (String × String)

structure Overrides where
  /-- The name of the cache directory, if one is given. -/
  cacheDir : Option String := none
  /-- The process is marked as detached. -/
  daemonized : Bool := false
  deriving DecidableEq, Repr

namespace Overrides

/-- The variable that names the cache directory. -/
def cacheDirVariable : String := "ROAST_CACHE_DIR"

/-- The variable that marks the process as detached. -/
def daemonizedVariable : String := "ROAST_DAEMONIZED"

/-- A flag's value that switches it on: with the blanks at its ends taken off, anything
but nothing, a zero, and `false` in any case. -/
def isTruthy (value : String) : Bool :=
  let word := Text.trim value.toList
  !(word.isEmpty || word == ['0'] || word.map Char.toLower == "false".toList)

/-- The values that an environment gives. An empty name of a cache directory gives
nothing. -/
def ofEnvironment (environment : Environment) : Overrides where
  cacheDir := (environment.lookup cacheDirVariable).filter (· ≠ "")
  daemonized := (environment.lookup daemonizedVariable).any isTruthy

end Overrides
end ModuleCache
