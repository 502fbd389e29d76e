import ModuleCache.Shell.Executable
import ModuleCache.Shell.Glob
import ModuleCache.Shell.Isolation
import ModuleCache.Shell.Reader
import ModuleCache.Shell.Redirection

/-!
Running scripts. A script that does not come to its end within a bound on nested and
repeated commands is stopped as one that used up its time.
-/

namespace ModuleCache.Shell

/-- The signal for a script that used up its time. -/
def outOfTime : Stop := .killed 24

/-- What stands in front of the line breaks at its end. -/
def withoutLineBreaks (cs : List Char) : List Char :=
  (cs.reverse.dropWhile (· == '\n')).reverse

def State.searchPath (s : State) : String := (s.bindings.lookup "PATH").getD ""

/-- The commands that run other commands, or a text. -/
def runners : List String := ["eval", ".", "exec", "command"]

def describe (name : String) : Action Nat := do
  let s ← get
  if (s.functions.lookup name).isSome || runners.contains name || (builtin? name []).isSome then
    printLine name
    pure 0
  else
    match startable s.fs ⟨name⟩ s.searchPath with
    | .ok (file, _) =>
      printLine file.text
      pure 0
    | .error _ => pure 127

mutual

/-- Whether a parameter has a value to take; if not, what a choice makes of that. Gives
none when the word of the choice is to be taken. -/
def choose : Nat → String → Choice → Bool → Word → Action (Option String)
  | 0, _, _, _, _ => throw outOfTime
  | bound + 1, name, kind, emptyIsNone, word => do
    let value := ((← get).value? name).filter fun value => !(emptyIsNone && value = "")
    match kind, value with
    | .instead, some _ => pure none
    | .instead, none => pure (some "")
    | _, some value => pure (some value)
    | .orElse, none => pure none
    | .assigning, none => do
      let value := unmark (← expandText bound word)
      modify (·.assign name value)
      pure (some value)
    | .failing, none => do
      let text := unmark (← expandText bound word)
      let complaint :=
        if text != "" then text
        else if emptyIsNone then "parameter not set or null"
        else "parameter not set"
      report s!"{name}: {complaint}"
      throw (.exit 2)

/-- The text of a part of a word, with the mark whether it is quoted. -/
def partValue : Nat → Part → Action (List Marked)
  | 0, _ => throw outOfTime
  | bound + 1, part => do
    match part with
    | .text quoted chars => pure (chars.map (·, quoted))
    | .parameter quoted name => do
      let s ← get
      match s.value? name with
      | some value => pure (value.toList.map (·, quoted))
      | none =>
        if s.stopsOnUnset && name != "@" && name != "*" then
          report s!"{name}: parameter not set"
          throw (.exit 2)
        else pure []
    | .length quoted name =>
      pure ((toString (((← get).value? name).getD "").utf8ByteSize).toList.map (·, quoted))
    | .choice quoted name kind emptyIsNone word =>
      match ← choose bound name kind emptyIsNone word with
      | some value => pure (value.toList.map (·, quoted))
      | none => expandText bound word
    | .trimmed quoted name fromStart longest pattern =>
      let pattern := atoms (← expandText bound pattern)
      let value := (((← get).value? name).getD "").toList
      let kept := if fromStart then trimStart longest pattern value else trimEnd longest pattern value
      pure (kept.map (·, quoted))
    | .output quoted commands =>
      let bytes ← capturing (runAll bound commands)
      pure ((withoutLineBreaks (Text.readLossy bytes)).map (·, quoted))
    | .number quoted expression =>
      let text := unmark (← expandText bound expression)
      let s ← get
      let value (name : String) : Option Int :=
        match s.value? name with
        | none | some "" => some 0
        | some text => Arithmetic.number? text
      match Arithmetic.evaluate? value text with
      | some n => pure ((toString n).toList.map (·, quoted))
      | none =>
        report s!"arithmetic expression: expecting primary: \"{text}\""
        throw (.exit 2)

/-- The text of a word that stays one word. -/
def expandText : Nat → Word → Action (List Marked)
  | 0, _ => throw outOfTime
  | _ + 1, [] => pure []
  | bound + 1, part :: rest => do
    let value ← partValue bound part
    pure (value ++ (← expandText bound rest))

/-- The words that a word gives: none, one, or several where an unquoted value is split
or all arguments are named. Inside a choice the text of the word is split too. -/
def expandFields : Nat → Bool → Word → Fields → Action Fields
  | 0, _, _, _ => throw outOfTime
  | _ + 1, _, [], fields => pure fields
  | bound + 1, splits, part :: rest, fields => do
    let separators := (← get).separators
    let fields ← match part with
      | .text quoted chars =>
        if quoted || !splits then pure (fields.add quoted chars)
        else pure (fields.addSplit separators (chars.map (·, false)))
      | .parameter true "@" => pure (fields.addAll (← get).arguments)
      | .choice false name kind emptyIsNone word =>
        match ← choose bound name kind emptyIsNone word with
        | some value => pure (fields.addSplit separators (value.toList.map (·, false)))
        | none => expandFields bound true word fields
      | .parameter true _ | .length true _ | .choice true .. | .trimmed true .. | .output true _ |
        .number true _ => pure (fields.add true ((← partValue bound part).map (·.1)))
      | _ => pure (fields.addSplit separators (← partValue bound part))
    expandFields bound splits rest fields

def expandAll : Nat → List Word → Action (List String)
  | 0, _ => throw outOfTime
  | _ + 1, [] => pure []
  | bound + 1, word :: rest => do
    let fields ← expandFields bound false word {}
    let fs := (← get).fs
    pure (fields.close.finished.flatMap (globbed fs) ++ (← expandAll bound rest))

/-- Leads the streams where redirections say; stops at the first that fails. -/
def redirect : Nat → List Redirection → Action Bool
  | 0, _ => throw outOfTime
  | _ + 1, [] => pure true
  | bound + 1, redirection :: rest => do
    let opened ← match redirection with
      | .read file => openFrom (unmark (← expandText bound file))
      | .given content => do
        let text := unmark (← expandText bound content)
        modify fun s => { s with input := bytesOf text }
        pure true
      | .write complaints appends file =>
        openTo complaints appends (unmark (← expandText bound file))
      | .merge complaints => do
        modify fun s =>
          if complaints then { s with complaintsTo := s.outputTo }
          else { s with outputTo := s.complaintsTo }
        pure true
    if opened then redirect bound rest else pure false

def assignAll : Nat → List (String × Word) → Action Unit
  | 0, _ => throw outOfTime
  | _ + 1, [] => pure ()
  | bound + 1, (name, word) :: rest => do
    let value := unmark (← expandText bound word)
    modify (·.assign name value)
    assignAll bound rest

/-- Runs the commands of a text. What can be read in front of a fault is run. -/
def runText : Nat → String → Action Unit
  | 0, _ => throw outOfTime
  | bound + 1, text => do
    let program := readScript text
    let lines := (← get).lines
    modify fun s => { s with lines := text.toList.count '\n' }
    runAll bound program.commands
    match program.fault with
    | none => modify fun s => { s with lines }
    | some behind => do
      modify fun s => { s with line := s.lines - behind + 1 }
      report "Syntax error"
      throw (.exit 2)

/-- Runs the commands of a text as another script. -/
def runOther : Nat → String → String → List String → Action Nat
  | 0, _, _, _ => throw outOfTime
  | bound + 1, name, text, arguments => do
    isolated (fun s => {
      fs := s.fs, name, arguments, bindings := s.bindings, input := s.input, outputTo := s.outputTo
      complaintsTo := s.complaintsTo, printed := s.printed, complained := s.complained })
      (runText bound text)
    pure (← get).status

/-- Runs a program that a file is, under the name by which it is called. -/
def runExecutable : Nat → String → Path → Executable → List String → Action Nat
  | 0, _, _, _, _ => throw outOfTime
  | bound + 1, name, file, found, arguments =>
    match found with
    | .script text _ | .unknown text => runOther bound file.text text arguments
    | .system utility before =>
      let arguments := before ++ arguments
      if interpreters.contains utility then
        match arguments with
        | "-c" :: text :: arguments => runOther bound (arguments.headD utility) text (arguments.drop 1)
        | script :: arguments => do
          match (← get).fs.readBytes ⟨script⟩ with
          | .ok content => runOther bound script (textOf content.toList) arguments
          | .error _ => do
            complain s!"{utility}: 0: cannot open {script}: No such file"
            pure 2
        | [] => do
          let text := textOf (← takeInput)
          runOther bound utility text []
      else if utility = "env" then
        match arguments with
        | [] => do
          (← get).bindings.forM fun (name, value) => printLine s!"{name}={value}"
          pure 0
        | command :: arguments => call bound command arguments
      else
        match utility? utility arguments with
        | some action => action
        | none => do
          report s!"{name}: not found"
          pure 127

def call : Nat → String → List String → Action Nat
  | 0, _, _ => throw outOfTime
  | bound + 1, name, arguments => do
    let s ← get
    match s.functions.lookup name, name with
    | some body, _ => withArguments arguments (runOne bound body)
    | none, "eval" => do
      runText bound (" ".intercalate arguments)
      pure (← get).status
    | none, "." => do
      let file := arguments.headD ""
      match s.fs.readBytes ⟨file⟩ with
      | .ok content => do
        runText bound (textOf content.toList)
        pure (← get).status
      | .error _ => do
        report s!".: cannot open {file}: No such file"
        throw (.exit 2)
    | none, "exec" =>
      match arguments with
      | [] => pure 0
      | name :: arguments => do throw (.exit (← call bound name arguments))
    | none, "command" =>
      match arguments with
      | "-v" :: name :: _ => describe name
      | name :: arguments => call bound name arguments
      | [] => pure 0
    | none, _ =>
      match builtin? name arguments with
      | some action => action
      | none =>
        match startable s.fs ⟨name⟩ s.searchPath with
        | .ok (file, found) => runExecutable bound name file found arguments
        | .error .noPermission => do
          report s!"{name}: {IoError.noPermission.reason}"
          pure 126
        | .error _ => do
          report s!"{name}: not found"
          pure 127

/-- Runs the first arm of a choice whose test succeeds. -/
def runArms : Nat → List (List Command × List Command) → List Command → Action Unit
  | 0, _, _ => throw outOfTime
  | bound + 1, [], otherwise => do
    setStatus 0
    runAll bound otherwise
  | bound + 1, (test, body) :: rest, otherwise => do
    testing (runAll bound test)
    if (← get).status = 0 then runAll bound body else runArms bound rest otherwise

def matchesAny : Nat → List Word → List Char → Action Bool
  | 0, _, _ => throw outOfTime
  | _ + 1, [], _ => pure false
  | bound + 1, pattern :: rest, text => do
    if isMatch (atoms (← expandText bound pattern)) text then pure true
    else matchesAny bound rest text

/-- Runs the first arm of a selection with a pattern that matches. -/
def runSelection : Nat → List (List Word × List Command) → List Char → Action Unit
  | 0, _, _ => throw outOfTime
  | _ + 1, [], _ => setStatus 0
  | bound + 1, (patterns, body) :: rest, text => do
    if ← matchesAny bound patterns text then
      setStatus 0
      runAll bound body
    else runSelection bound rest text

/-- Runs the body of a loop and says whether the loop goes on. -/
def runRound : Nat → List Command → Action Bool
  | 0, _ => throw outOfTime
  | bound + 1, body => tryCatch (do runAll bound body; pure true) fun
    | .endRound leaves loops =>
      if 1 < loops then throw (.endRound leaves (loops - 1)) else pure !leaves
    | stop => throw stop

/-- Repeats a body, of whose last round the status is left. -/
def runLoop : Nat → Bool → List Command → List Command → (status : Nat) → Action Unit
  | 0, _, _, _, _ => throw outOfTime
  | bound + 1, untilSuccess, test, body, status => do
    testing (runAll bound test)
    if ((← get).status = 0) = untilSuccess then setStatus status
    else if ← runRound bound body then
      runLoop bound untilSuccess test body (← get).status
    else pure ()

/-- Runs a body for each of the values of a variable. -/
def runEach : Nat → String → List String → List Command → Action Unit
  | 0, _, _, _ => throw outOfTime
  | _ + 1, _, [], _ => pure ()
  | bound + 1, name, value :: rest, body => do
    modify (·.assign name value)
    if ← runRound bound body then runEach bound name rest body else pure ()

def runOne : Nat → Command → Action Unit
  | 0, _ => throw outOfTime
  | bound + 1, command => do
    match command with
    | .simple behind assignments words => do
      modify fun s => { s with line := s.lines - behind + 1 }
      match ← expandAll bound words with
      | [] =>
        setStatus 0
        assignAll bound assignments
      | name :: arguments =>
        let before := (← get).bindings
        assignAll bound assignments
        let during := (← get).bindings
        setStatus (← call bound name arguments)
        unless assignments.isEmpty do
          modify fun s =>
            let changed := s.bindings.filter fun entry => !during.contains entry
            { s with bindings := changed ++ before.filter fun (n, _) => (changed.lookup n).isNone }
      stopOnFailure
    | .group body => runAll bound body
    | .inner body => do
      isolated id (runAll bound body)
      stopOnFailure
    | .redirected body redirections =>
      let isExec := match body with
        | .simple _ [] [word] => (plainWord word).1 == "exec".toList
        | _ => false
      if isExec then
        if ← redirect bound redirections then setStatus 0 else throw (.exit 2)
      else
        let takesInput := redirections.any fun
          | .read _ | .given _ => true
          | _ => false
        restoring takesInput do
          match body with
          | .simple behind .. => modify fun s => { s with line := s.lines - behind + 1 }
          | _ => pure ()
          if ← redirect bound redirections then runOne bound body
          else
            setStatus 2
            stopOnFailure
    | .branch arms otherwise => runArms bound arms otherwise
    | .loop untilSuccess test body => runLoop bound untilSuccess test body 0
    | .each name words body => do
      let values ← expandAll bound words
      setStatus 0
      runEach bound name values body
    | .select subject arms => runSelection bound arms ((← expandText bound subject).map (·.1))
    | .both first second => do
      testing (runOne bound first)
      if (← get).status = 0 then runOne bound second
    | .either first second => do
      testing (runOne bound first)
      if (← get).status ≠ 0 then runOne bound second
    | .negated body => do
      testing (runOne bound body)
      setStatus (if (← get).status = 0 then 1 else 0)
    | .piped first second => do
      let bytes ← capturing (runOne bound first)
      restoring true (isolated (fun s => { s with input := bytes }) (runOne bound second))
      stopOnFailure
    | .detached body => do
      isolated (fun s => { s with input := [] }) (runOne bound body)
      setStatus 0
    | .define name body => do
      modify fun s => { s with
        functions := (name, body) :: s.functions.filter (·.1 ≠ name)
        status := 0 }

def runAll : Nat → List Command → Action Unit
  | 0, _ => throw outOfTime
  | _ + 1, [] => pure ()
  | bound + 1, command :: rest => do
    runOne bound command
    runAll bound rest

end

end ModuleCache.Shell
