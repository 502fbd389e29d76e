import ModuleCache.Shell.State

/-!
Leading the streams of a script to files, and back to where they led before.
-/

namespace ModuleCache.Shell

/-- The complaint about a file that cannot be opened or created. -/
def openingFault (verb file : String) (isNew : Bool) (e : IoError) : String :=
  let reason :=
    match e with
    | .notFound | .notDirectory => if isNew then "Directory nonexistent" else "No such file"
    | e => e.reason
  s!"cannot {verb} {file}: {reason}"

/-- Opens what a redirection names and leads the stream there. -/
def openTo (complaints appends : Bool) (file : String) : Action Bool := do
  let s ← get
  let lead (s : State) (sink : Sink) : State :=
    if complaints then { s with complaintsTo := sink } else { s with outputTo := sink }
  if file = "/dev/null" then
    set (lead s .nowhere)
    pure true
  else if file = "/dev/stderr" then
    set (lead s .complaints)
    pure true
  else
    let opened : Except IoError (FileSystem × Address) := do
      let fs ← if appends && s.fs.isFile ⟨file⟩ then pure s.fs else s.fs.writeBytes ⟨file⟩ .empty
      pure (fs, ← fs.locate ⟨file⟩)
    match opened with
    | .ok (fs, address) =>
      set (lead { s with fs } (.file address))
      pure true
    | .error e =>
      report (openingFault "create" file true e)
      pure false

def openFrom (file : String) : Action Bool := do
  let s ← get
  if file = "/dev/null" then
    set { s with input := [] }
    pure true
  else
    match s.fs.readBytes ⟨file⟩ with
    | .ok content =>
      set { s with input := content.toList }
      pure true
    | .error .isDirectory =>
      set { s with input := [] }
      pure true
    | .error e =>
      report (openingFault "open" file false e)
      pure false

/-- Does something and then leads the streams back to where they led before, also when
that stops the script. -/
def restoring (restoresInput : Bool) (body : Action Unit) : Action Unit := fun before =>
  let (result, after) := body before
  (result, { after with
    outputTo := before.outputTo
    complaintsTo := before.complaintsTo
    input := if restoresInput then before.input else after.input })

end ModuleCache.Shell
