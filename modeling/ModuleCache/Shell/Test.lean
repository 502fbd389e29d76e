import ModuleCache.FileSystem

/-!
Conditions on texts, whole numbers and files, as scripts write them in words. A
condition of up to four words is read by the count of its words; a longer one is cut at
the words for "or" and "and".
-/

namespace ModuleCache.Shell

inductive TestFault where
  | illegalNumber (word : String)
  | unexpectedOperator (word : String)
  | missingArgument
  deriving DecidableEq, Repr

def TestFault.message : TestFault → String
  | .illegalNumber word => s!"Illegal number: {word}"
  | .unexpectedOperator word => s!"{word}: unexpected operator"
  | .missingArgument => "argument expected"

def wholeNumber (word : String) : Except TestFault Int :=
  let trimmed := String.ofList (((word.toList.dropWhile (· == ' ')).reverse.dropWhile (· == ' ')).reverse)
  let digits := match trimmed.toList with
    | '+' :: rest => String.ofList rest
    | _ => trimmed
  match digits.toInt? with
  | some n => .ok n
  | none => .error (.illegalNumber word)

/-- The comparison of whole numbers that a word stands for. -/
def comparison? : String → Option (Int → Int → Bool)
  | "-eq" => some (· == ·)
  | "-ne" => some (· != ·)
  | "-lt" => some fun a b => decide (a < b)
  | "-le" => some fun a b => decide (a ≤ b)
  | "-gt" => some fun a b => decide (b < a)
  | "-ge" => some fun a b => decide (b ≤ a)
  | _ => none

/-- A file allows something to its owner. -/
def allows (fs : FileSystem) (bit : Nat) (file : Path) : Bool :=
  match fs.find file with
  | .ok (.file _ mode _) => mode &&& bit != 0
  | .ok (.directory writable _) => writable || bit != 0o200
  | .error _ => false

/-- The question about one word that another word stands for. -/
def question? (fs : FileSystem) : String → Option (String → Bool)
  | "-n" => some (· != "")
  | "-z" => some (· == "")
  | "-e" => some fun word => fs.existsAt ⟨word⟩
  | "-f" => some fun word => fs.isFile ⟨word⟩
  | "-d" => some fun word => fs.isDirectory ⟨word⟩
  | "-x" => some fun word => allows fs 0o100 ⟨word⟩
  | "-r" => some fun word => allows fs 0o400 ⟨word⟩
  | "-w" => some fun word => allows fs 0o200 ⟨word⟩
  | "-s" => some fun word => match fs.find ⟨word⟩ with
      | .ok (.file content ..) => content.size != 0
      | .ok (.directory ..) => true
      | .error _ => false
  | "-h" | "-L" | "-p" | "-b" | "-c" | "-S" | "-t" | "-u" | "-g" | "-k" => some fun _ => false
  | _ => none

/-- The relation between two words that a word stands for. -/
def relation? (fs : FileSystem) (word : String) : Option (String → String → Except TestFault Bool) :=
  let time (file : String) := fs.modified? ⟨file⟩
  match word with
  | "=" | "==" => if word = "=" then some fun a b => pure (a == b) else none
  | "!=" => some fun a b => pure (a != b)
  | "<" => some fun a b => pure (decide (a < b))
  | ">" => some fun a b => pure (decide (b < a))
  | "-a" => some fun a b => pure (a != "" && b != "")
  | "-o" => some fun a b => pure (a != "" || b != "")
  | "-nt" => some fun a b => pure (match time a, time b with
      | some a, some b => decide (b < a)
      | a, _ => a.isSome)
  | "-ot" => some fun a b => pure (match time a, time b with
      | some a, some b => decide (a < b)
      | _, b => b.isSome)
  | "-ef" => some fun a b => pure ((fs.locate ⟨a⟩).toOption == (fs.locate ⟨b⟩).toOption)
  | _ => (comparison? word).map fun holds a b => do pure (holds (← wholeNumber a) (← wholeNumber b))

/-- The words in front of the first occurrence of a word, and those behind it. -/
def cutAt? (word : String) (words : List String) : Option (List String × List String) :=
  match words.dropWhile (· != word) with
  | [] => none
  | _ :: behind => some (words.takeWhile (· != word), behind)

/-- Whether a condition holds. The bound exceeds the count of its words. -/
def holds (fs : FileSystem) : Nat → List String → Except TestFault Bool
  | 0, _ => .error .missingArgument
  | _ + 1, [] => .ok false
  | _ + 1, [word] => .ok (word != "")
  | bound + 1, [a, b] =>
    if a = "!" then (holds fs bound [b]).map (!·)
    else match question? fs a with
      | some ask => .ok (ask b)
      | none => .error (.unexpectedOperator a)
  | bound + 1, [a, operator, b] =>
    match relation? fs operator with
    | some relation => relation a b
    | none =>
      if a = "!" then (holds fs bound [operator, b]).map (!·)
      else if a = "(" ∧ b = ")" then holds fs bound [operator]
      else .error (.unexpectedOperator a)
  | bound + 1, words =>
    match cutAt? "-o" words with
    | some (before, behind) => do pure ((← holds fs bound before) || (← holds fs bound behind))
    | none =>
      match cutAt? "-a" words with
      | some (before, behind) => do pure ((← holds fs bound before) && (← holds fs bound behind))
      | none =>
        match words with
        | "!" :: rest => (holds fs bound rest).map (!·)
        | "(" :: rest =>
          if rest.getLast? = some ")" then holds fs bound rest.dropLast
          else .error .missingArgument
        | _ => .error (.unexpectedOperator ((words.drop 1).headD ""))

end ModuleCache.Shell
