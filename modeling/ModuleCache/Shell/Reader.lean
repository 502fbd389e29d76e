import ModuleCache.Shell.Token

/-!
Reading scripts. Every reader takes a bound on how deep readers call one another, which
the length of the script exceeds in no script that can be read, and gives back what it
read with the rest of the text.
-/

namespace ModuleCache.Shell

mutual

/-- Reads the parts of a word up to a character at which it stops. -/
def readParts : Nat → (Char → Bool) → List Char → Option (List Part × List Char)
  | 0, _, _ => none
  | bound + 1, stops, cs =>
    match cs with
    | [] => some ([], [])
    | c :: rest =>
      if stops c then some ([], cs)
      else do
        let (parts, rest) ←
          if c = '\'' then do
            let (inside, rest) ← upTo? '\'' rest
            pure ([Part.text true inside], rest)
          else if c = '"' then do
            let (inside, rest) ← readQuoted bound (some '"') [] rest
            pure (if inside.isEmpty then [Part.text true []] else inside, rest)
          else if c = '\\' then
            match rest with
            | [] => pure ([Part.text true ['\\']], [])
            | '\n' :: rest => pure ([], rest)
            | d :: rest => pure ([Part.text true [d]], rest)
          else if c = '$' then do
            let (part, rest) ← readDollar bound false rest
            pure ([part], rest)
          else if c = '`' then do
            let (part, rest) ← readBackquoted bound false rest
            pure ([part], rest)
          else pure ([Part.text false [c]], rest)
        let (more, rest) ← readParts bound stops rest
        pure (parts ++ more, rest)

/-- Reads what stands in quotes up to a closing character, or all of the text when there
is none, behind the parts that were read. -/
def readQuoted : Nat → Option Char → List Part → List Char → Option (List Part × List Char)
  | 0, _, _, _ => none
  | bound + 1, close, parts, cs =>
    match cs with
    | [] => if close.isNone then some (parts, []) else none
    | '\\' :: '\n' :: rest => readQuoted bound close parts rest
    | '\\' :: c :: rest =>
      if ['$', '`', '\\'].contains c || (c == '"' && close.isSome) || some c == close then
        readQuoted bound close (parts ++ [.text true [c]]) rest
      else readQuoted bound close (parts ++ [.text true ['\\', c]]) rest
    | '$' :: rest => do
      let (part, rest) ← readDollar bound true rest
      readQuoted bound close (parts ++ [part]) rest
    | '`' :: rest => do
      let (part, rest) ← readBackquoted bound true rest
      readQuoted bound close (parts ++ [part]) rest
    | c :: rest =>
      if some c = close then some (parts, rest)
      else if c = '"' ∧ close = some '\x7d' then do
        let (inside, rest) ← readQuoted bound (some '"') [] rest
        readQuoted bound close (parts ++ inside) rest
      else readQuoted bound close (parts ++ [.text true [c]]) rest

/-- Reads the commands behind an opening back quote. -/
def readBackquoted : Nat → Bool → List Char → Option (Part × List Char)
  | 0, _, _ => none
  | bound + 1, quoted, cs => do
    let (inside, rest) ← upToBackquote? cs
    match ← readCommands bound inside with
    | (commands, []) => pure (.output quoted commands, rest)
    | _ => none

/-- Reads what stands behind a dollar sign. -/
def readDollar : Nat → Bool → List Char → Option (Part × List Char)
  | 0, _, _ => none
  | bound + 1, quoted, cs =>
    match cs with
    | '(' :: rest =>
      let expression := match rest with
        | '(' :: inside => upToParentheses? 0 inside
        | _ => none
      match expression with
      | some (inside, rest) => do
        let (parts, _) ← readQuoted bound none [] inside
        pure (.number quoted parts, rest)
      | none => do
        let (commands, rest) ← readCommands bound rest
        match skipBetween rest.length rest with
        | ')' :: rest => pure (.output quoted commands, rest)
        | _ => none
    | '\x7b' :: '#' :: rest =>
      match parameterName true rest with
      | some (name, '\x7d' :: rest) => some (.length quoted name, rest)
      | _ => readBraced bound quoted "#" rest
    | '\x7b' :: rest => do
      let (name, rest) ← parameterName true rest
      readBraced bound quoted name rest
    | _ =>
      match parameterName false cs with
      | some (name, rest) => some (.parameter quoted name, rest)
      | none => some (.text quoted ['$'], cs)

/-- Reads what stands behind the name of a parameter in braces. -/
def readBraced : Nat → Bool → String → List Char → Option (Part × List Char)
  | 0, _, _, _ => none
  | bound + 1, quoted, name, cs => do
    let word (rest : List Char) : Option (List Part × List Char) :=
      if quoted then readQuoted bound (some '\x7d') [] rest
      else do
        let (word, rest) ← readParts bound (· == '\x7d') rest
        if rest.isEmpty then none else pure (word, rest.drop 1)
    let chosen (emptyIsNone : Bool) (rest : List Char) : Option (Part × List Char) := do
      let (letter, rest) ← rest.head?.map (·, rest.drop 1)
      let kind ← [('-', Choice.orElse), ('=', .assigning), ('?', .failing), ('+', .instead)].lookup letter
      let (word, rest) ← word rest
      pure (.choice quoted name kind emptyIsNone word, rest)
    let trimmed (fromStart longest : Bool) (rest : List Char) : Option (Part × List Char) := do
      let (pattern, rest) ← readParts bound (· == '\x7d') rest
      if rest.isEmpty then none
      else pure (.trimmed quoted name fromStart longest pattern, rest.drop 1)
    match cs with
    | '\x7d' :: rest => pure (.parameter quoted name, rest)
    | '#' :: '#' :: rest => trimmed true true rest
    | '#' :: rest => trimmed true false rest
    | '%' :: '%' :: rest => trimmed false true rest
    | '%' :: rest => trimmed false false rest
    | ':' :: rest => chosen true rest
    | rest => chosen false rest

/-- Reads a redirection, if one stands here. The lines of a text that is given in the
script are taken out of what follows. -/
def readRedirection : Nat → List Char → Option (Option (Redirection × List Char))
  | 0, _ => none
  | bound + 1, cs =>
    let file (rest : List Char) (made : List Part → Redirection) := do
      let (word, rest) ← readParts bound isMeta (skipBlanks rest)
      if word.isEmpty then none else pure (some (made word, rest))
    let text (dropsTabs : Bool) (rest : List Char) := do
      let (word, rest) ← readParts bound isMeta (skipBlanks rest)
      let (delimiter, quoted) := plainWord word
      let behind := (rest.dropWhile (· != '\n')).drop 1
      let (content, behind) := linesUpTo dropsTabs delimiter behind.length behind
      let parts ← if quoted then pure [Part.text true content]
        else (readQuoted bound none [] content).map (·.1)
      pure (some (Redirection.given parts, rest.takeWhile (· != '\n') ++ '\n' :: behind))
    match cs with
    | '<' :: '<' :: '-' :: rest => text true rest
    | '<' :: '<' :: rest => text false rest
    | '<' :: rest | '0' :: '<' :: rest => file rest .read
    | '>' :: '&' :: '2' :: rest | '1' :: '>' :: '&' :: '2' :: rest => some (some (.merge false, rest))
    | '2' :: '>' :: '&' :: '1' :: rest => some (some (.merge true, rest))
    | '2' :: '>' :: '>' :: rest => file rest (.write true true)
    | '2' :: '>' :: rest => file rest (.write true false)
    | '>' :: '>' :: rest | '1' :: '>' :: '>' :: rest => file rest (.write false true)
    | '>' :: '|' :: rest | '>' :: rest | '1' :: '>' :: rest => file rest (.write false false)
    | _ => some none

def readRedirections : Nat → List Char → Option (List Redirection × List Char)
  | 0, _ => none
  | bound + 1, cs => do
    match ← readRedirection bound (skipBlanks cs) with
    | none => pure ([], cs)
    | some (redirection, rest) =>
      let (more, rest) ← readRedirections bound rest
      pure (redirection :: more, rest)

def readSimple : Nat → List Char →
    Option ((List (String × List Part) × List (List Part) × List Redirection) × List Char)
  | 0, _ => none
  | bound + 1, cs => do
    let cs := skipBlanks cs
    match ← readRedirection bound cs with
    | some (redirection, rest) =>
      let ((assignments, words, redirections), rest) ← readSimple bound rest
      pure ((assignments, words, redirection :: redirections), rest)
    | none =>
      match assignedName cs with
      | some (name, rest) =>
        let (word, rest) ← readParts bound isMeta rest
        let ((assignments, words, redirections), rest) ← readSimple bound rest
        pure (((name, word) :: assignments, words, redirections), rest)
      | none => readWords bound cs

/-- Reads the words and redirections of a simple command behind its assignments. -/
def readWords : Nat → List Char →
    Option ((List (String × List Part) × List (List Part) × List Redirection) × List Char)
  | 0, _ => none
  | bound + 1, cs => do
    let cs := skipBlanks cs
    match ← readRedirection bound cs with
    | some (redirection, rest) =>
      let ((_, words, redirections), rest) ← readWords bound rest
      pure (([], words, redirection :: redirections), rest)
    | none =>
      match cs with
      | [] => pure (([], [], []), [])
      | c :: _ =>
        if isMeta c then pure (([], [], []), cs)
        else
          let (word, rest) ← readParts bound isMeta cs
          let ((_, words, redirections), rest) ← readWords bound rest
          pure (([], word :: words, redirections), rest)

/-- Reads the arms of a choice behind its first test, up to the closing keyword. -/
def readArms : Nat → List Char →
    Option ((List (List Command × List Command) × List Command) × List Char)
  | 0, _ => none
  | bound + 1, cs => do
    let (test, rest) ← readSome bound cs
    let (body, rest) ← readSome bound (← keyword? "then" rest)
    match keyword? "elif" rest, keyword? "else" rest with
    | some rest, _ =>
      let ((arms, otherwise), rest) ← readArms bound rest
      pure (((test, body) :: arms, otherwise), rest)
    | none, some rest =>
      let (otherwise, rest) ← readSome bound rest
      pure (([(test, body)], otherwise), ← keyword? "fi" rest)
    | none, none => pure (([(test, body)], []), ← keyword? "fi" rest)

/-- Reads the patterns of an arm of a selection, up to the closing parenthesis. -/
def readPatterns : Nat → List Char → Option (List (List Part) × List Char)
  | 0, _ => none
  | bound + 1, cs => do
    let (pattern, rest) ← readParts bound isMeta (skipBlanks cs)
    match skipBlanks rest with
    | '|' :: rest =>
      let (more, rest) ← readPatterns bound rest
      pure (pattern :: more, rest)
    | ')' :: rest => pure ([pattern], rest)
    | _ => none

/-- Reads the arms of a selection, up to the closing keyword. -/
def readSelection : Nat → List Char → Option (List (List (List Part) × List Command) × List Char)
  | 0, _ => none
  | bound + 1, cs =>
    match keyword? "esac" cs with
    | some rest => some ([], rest)
    | none => do
      let cs := skipLines cs.length cs
      let (patterns, rest) ← readPatterns bound (if cs.head? = some '(' then cs.drop 1 else cs)
      let (body, rest) ← readCommands bound rest
      let rest := skipBetween rest.length rest
      let (arms, rest) ← readSelection bound (if rest.take 2 = [';', ';'] then rest.drop 2 else rest)
      pure ((patterns, body) :: arms, rest)

def readBody : Nat → List Char → Option (List Command × List Char)
  | 0, _ => none
  | bound + 1, cs => do
    let (body, rest) ← readSome bound (← keyword? "do" cs)
    pure (body, ← keyword? "done" rest)

/-- Reads a command and the redirections behind it. -/
def readCommand : Nat → List Char → Option (Command × List Char)
  | 0, _ => none
  | bound + 1, cs => do
    let cs := skipBlanks cs
    let compound (command : Command) (rest : List Char) := do
      let (redirections, rest) ← readRedirections bound rest
      pure (if redirections.isEmpty then command else .redirected command redirections, rest)
    if cs.head? = some '(' then
      let (body, rest) ← readSome bound (cs.drop 1)
      match skipBetween rest.length rest with
      | ')' :: rest => compound (.inner body) rest
      | _ => none
    else
    match nextToken cs with
    | "\x7b" =>
      let (body, rest) ← readSome bound (cs.drop 1)
      compound (.group body) (← keyword? "\x7d" rest)
    | "if" =>
      let ((arms, otherwise), rest) ← readArms bound (cs.drop 2)
      compound (.branch arms otherwise) rest
    | "while" =>
      let (test, rest) ← readSome bound (cs.drop 5)
      let (body, rest) ← readBody bound rest
      compound (.loop false test body) rest
    | "until" =>
      let (test, rest) ← readSome bound (cs.drop 5)
      let (body, rest) ← readBody bound rest
      compound (.loop true test body) rest
    | "for" =>
      let rest := skipBlanks (cs.drop 3)
      let name := String.ofList (rest.takeWhile isNameChar)
      let rest := skipBlanks (rest.dropWhile isNameChar)
      let listed := skipLines rest.length rest
      if nextToken listed = "in" then
        let ((_, words, _), rest) ← readWords bound (listed.drop 2)
        let (body, rest) ← readBody bound rest
        compound (.each name words body) rest
      else
        let (body, rest) ← readBody bound rest
        compound (.each name [[.parameter true "@"]] body) rest
    | "case" =>
      let (subject, rest) ← readParts bound isMeta (skipBlanks (cs.drop 4))
      let (arms, rest) ← readSelection bound (← keyword? "in" rest)
      compound (.select subject arms) rest
    | _ =>
      match definedName cs with
      | some (name, rest) =>
        let (body, rest) ← readCommand bound (skipLines rest.length rest)
        pure (.define name body, rest)
      | none =>
        let ((assignments, words, redirections), rest) ← readSimple bound cs
        let command := Command.simple (cs.count '\n') assignments words
        if redirections.isEmpty then
          if assignments.isEmpty && words.isEmpty then none else pure (command, rest)
        else pure (.redirected command redirections, rest)

/-- Reads commands with bars between them, which an exclamation mark may negate. -/
def readPipeline : Nat → List Char → Option (Command × List Char)
  | 0, _ => none
  | bound + 1, cs => do
    let cs := skipBlanks cs
    if nextToken cs = "!" then
      let (body, rest) ← readPipeline bound (cs.drop 1)
      pure (.negated body, rest)
    else
      let (first, rest) ← readCommand bound cs
      readPiped bound first rest

/-- Reads the commands that stand behind bars. -/
def readPiped : Nat → Command → List Char → Option (Command × List Char)
  | 0, _, _ => none
  | bound + 1, first, cs =>
    match skipBlanks cs with
    | '|' :: '|' :: _ => some (first, cs)
    | '|' :: rest => do
      let (second, rest) ← readCommand bound (skipLines rest.length rest)
      readPiped bound (.piped first second) rest
    | _ => some (first, cs)

/-- Reads the commands that follow one another with doubled signs behind a command. -/
def readRest : Nat → Command → List Char → Option (Command × List Char)
  | 0, _, _ => none
  | bound + 1, first, cs =>
    match skipBlanks cs with
    | '&' :: '&' :: rest => do
      let (second, rest) ← readPipeline bound (skipLines rest.length rest)
      readRest bound (.both first second) rest
    | '|' :: '|' :: rest => do
      let (second, rest) ← readPipeline bound (skipLines rest.length rest)
      readRest bound (.either first second) rest
    | '&' :: rest => some (.detached first, rest)
    | cs => some (first, cs)

/-- Reads one command with all that follows it in its line; none when something else
closes the commands here. -/
def readNext : Nat → List Char → Option (Option Command × List Char)
  | 0, _ => none
  | bound + 1, cs => do
    let cs := skipBetween cs.length cs
    if cs.isEmpty || cs.head? = some ')' || cs.take 2 = [';', ';'] || isCloser (nextToken cs) then
      pure (none, cs)
    else
      let (first, rest) ← readPipeline bound cs
      let (command, rest) ← readRest bound first rest
      pure (some command, rest)

/-- Reads commands up to the end of the text or what closes them. -/
def readCommands : Nat → List Char → Option (List Command × List Char)
  | 0, _ => none
  | bound + 1, cs => do
    match ← readNext bound cs with
    | (none, rest) => pure ([], rest)
    | (some command, rest) =>
      let (more, rest) ← readCommands bound rest
      pure (command :: more, rest)

/-- Reads commands of which there has to be one. -/
def readSome : Nat → List Char → Option (List Command × List Char)
  | 0, _ => none
  | bound + 1, cs => do
    let (commands, rest) ← readCommands bound cs
    if commands.isEmpty then none else pure (commands, rest)

end

/-- A script as far as it can be read, and how many line breaks stand behind the place
where that ends, unless it is the end of the script. -/
structure Program where
  commands : List Command
  fault : Option Nat

/-- Reads a script. The bound exceeds the count of its commands. -/
def readFrom (depth : Nat) : Nat → List Char → Program
  | 0, cs => ⟨[], some (cs.count '\n')⟩
  | bound + 1, cs =>
    match readNext depth cs with
    | some (some command, rest) =>
      let program := readFrom depth bound rest
      { program with commands := command :: program.commands }
    | some (none, []) => ⟨[], none⟩
    | some (none, rest) => ⟨[], some (rest.count '\n')⟩
    | none => ⟨[], some (cs.count '\n')⟩

/-- Reads a script from its text. -/
def readScript (text : String) : Program :=
  readFrom (4 * text.length + 32) (text.length + 1) text.toList

end ModuleCache.Shell
