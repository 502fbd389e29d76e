/-!
TOML values and the rules by which statements build up a table. A table may be
written once under a header and may be created on the way to another one; a dotted
key may only add to tables that dotted keys made. Every breach of these rules makes
the document invalid, so the operations below answer with none.
-/

namespace ModuleCache.Toml

inductive Origin where
  /-- It has a header of its own. -/
  | header
  /-- It stands on the way to a table with a header. -/
  | passed
  /-- A dotted key made it. -/
  | dotted
  deriving DecidableEq, Repr

/-- A value of a document. Of numbers and dates only the kind is kept. -/
inductive Value where
  | text (content : String)
  | integer
  | float
  | bool (value : Bool)
  | datetime
  | array (items : List Value)
  /-- A table in braces, which nothing can add to. -/
  | inline (entries : List (String × Value))
  | table (origin : Origin) (entries : List (String × Value))
  /-- The tables under repeated headers in double brackets. -/
  | tables (items : List (List (String × Value)))
  deriving Repr, Inhabited

/-- The entries of a table, in the order in which they were first written. -/
abbrev Entries := List (String × Value)

/-- The entries with another value for a key that they have. -/
def replace (key : String) (value : Value) (entries : Entries) : Entries :=
  entries.map fun (k, v) => if k = key then (k, value) else (k, v)

/-- A change of a table, which may depend on how the table came to be. -/
abbrev Change := Origin → Entries → Option (Origin × Entries)

/-- Changes the table at the end of a path of keys, making those that are missing. The
keys of a dotted path make dotted tables and pass through no table with a header; any
path goes on in the last of several tables under one repeated header. -/
def changeAt (isDotted : Bool) (change : Change) : List String → Change
  | [], origin, entries => change origin entries
  | key :: keys, origin, entries =>
    match entries.lookup key with
    | none => do
      let start := if isDotted then Origin.dotted else Origin.passed
      let (made, below) ← changeAt isDotted change keys start []
      pure (origin, entries ++ [(key, .table made below)])
    | some (.table made below) =>
      if isDotted ∧ made = .header then none
      else do
        let (made, below) ← changeAt isDotted change keys made below
        pure (origin, replace key (.table made below) entries)
    | some (.tables items) =>
      match items.reverse with
      | [] => none
      | last :: earlier => do
        let (_, last) ← changeAt isDotted change keys .header last
        pure (origin, replace key (.tables (last :: earlier).reverse) entries)
    | some _ => none

/-- Adds a key with its value. A dotted key may end in a dotted table only, and no key
may be there already. -/
def addEntry (path : List String) (key : String) (value : Value) : Change :=
  changeAt true
    (fun origin entries =>
      if (origin = .dotted) = (path = []) ∨ (entries.lookup key).isSome then none
      else some (origin, entries ++ [(key, value)]))
    path

/-- Opens the table of a header. It may have been passed through, but no more; it then
moves behind the entries around it. -/
def openTable (path : List String) (key : String) : Change :=
  changeAt false
    (fun origin entries =>
      match entries.lookup key with
      | none => some (origin, entries ++ [(key, .table .header [])])
      | some (.table .passed below) =>
        some (origin, entries.filter (·.1 ≠ key) ++ [(key, .table .header below)])
      | some _ => none)
    path

/-- Opens one more table of a repeated header. -/
def openItem (path : List String) (key : String) : Change :=
  changeAt false
    (fun origin entries =>
      match entries.lookup key with
      | none => some (origin, entries ++ [(key, .tables [[]])])
      | some (.tables items) => some (origin, replace key (.tables (items ++ [[]])) entries)
      | some _ => none)
    path

end ModuleCache.Toml
