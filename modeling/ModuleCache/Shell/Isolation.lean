import ModuleCache.Shell.State

/-!
Doing something apart from the rest of a script: as a script of its own, for what it
prints, as a test that may fail, or with arguments of its own. Each of these says what
of the state goes back to what it was before.
-/

namespace ModuleCache.Shell

/-- Does something as a script of its own, from a state that is prepared for it: what it
does to variables, arguments, options and the current directory is dropped, and it can
end without ending this script. -/
def isolated (prepare : State → State) (body : Action Unit) : Action Unit := fun before =>
  let (result, after) := body { prepare before with atEnd := none }
  let restored := { before with
    fs := { after.fs with current := before.fs.current }
    input := after.input
    printed := after.printed
    complained := after.complained
    status := after.status }
  match result with
  | .ok () | .error (.endRound ..) => (.ok (), restored)
  | .error (.exit status) | .error (.finished status) => (.ok (), { restored with status })
  | .error (.killed signal) => (.error (.killed signal), restored)

/-- Does something as a script of its own and gives what it printed. -/
def capturing (body : Action Unit) : Action (List UInt8) := fun before =>
  let (result, after) := isolated (fun s => { s with printed := [], outputTo := .output }) body before
  (result.map fun () => after.printed, { after with printed := before.printed })

/-- Does something whose failure does not end the script. -/
def testing (body : Action Unit) : Action Unit := fun before =>
  let (result, after) := body { before with isTested := true }
  (result, { after with isTested := before.isTested })

/-- Ends the script if it stops on failures and the last command failed. -/
def stopOnFailure : Action Unit := do
  let s ← get
  if s.stopsOnFailure && !s.isTested && s.status != 0 then throw (.exit s.status)

/-- Runs a defined command with its arguments; its own variables are dropped. -/
def withArguments (arguments : List String) (body : Action Unit) : Action Nat := fun before =>
  let (result, after) := body { before with arguments, locals := [] }
  let restored := after.locals.foldl (fun s name =>
    match before.bindings.lookup name with
    | some value => s.assign name value
    | none => s.unassign name) after
  let restored := { restored with arguments := before.arguments, locals := before.locals }
  match result with
  | .ok () => (.ok restored.status, restored)
  | .error (.finished status) => (.ok status, restored)
  | .error stop => (.error stop, restored)

end ModuleCache.Shell
