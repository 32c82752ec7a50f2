/-!
# Options

The command line: options, and the files to process. Options and files may be mixed; after `--`
every argument is a file. A file named `-` is the standard input.
-/

namespace GraphTransform.Command

/-- A stage of processing; a stage comes after those listed before it. -/
inductive Stage where
  /-- Building rules from their declarations. -/
  | lower
  /-- Printing reports. -/
  | print
deriving DecidableEq

/-- A text that is the name of no stage. -/
structure UnknownStage where
  /-- The text. -/
  text : String
deriving DecidableEq

/-- The message of the error. -/
def UnknownStage.message (e : UnknownStage) : String := s!"unknown stage: {e.text}"

namespace Stage

/-- The stage with a name. -/
def ofText (text : String) : Except UnknownStage Stage :=
  if text = "lower" then .ok .lower
  else if text = "print" then .ok .print
  else .error ⟨text⟩

/-- The place of a stage. -/
def place : Stage → Nat
  | .lower => 0
  | .print => 1

end Stage

/-- The options of a run. -/
structure Options where
  /-- Whether reports show the graphs. -/
  graphs : Bool := false
  /-- The first stage that is left out, if one is. -/
  omitFrom : Option Stage := none
  /-- The files to process, in order. -/
  files : List String := []
deriving DecidableEq

/-- A reason why the arguments give no options. -/
inductive UsageError where
  /-- Help is asked for. -/
  | help
  /-- There is no such option. -/
  | unknownOption (argument : String)
  /-- The option is given twice. -/
  | repeatedOption (name : String)
  /-- The option takes no value. -/
  | unexpectedValue (argument : String)
  /-- The option takes a value. -/
  | missingValue (name : String)
  /-- The value of an option is the name of no stage. -/
  | unknownStage (cause : UnknownStage)
  /-- The name of a file is empty. -/
  | emptyFile
  /-- There is no file. -/
  | noFile
deriving DecidableEq

/-- The message of an error; asking for help is answered by the usage. -/
def UsageError.message : UsageError → String
  | .help =>
    "Usage: [--graphs] [--omit lower|print] FILE...\n\n" ++
      "Lower graph transformation rules and print them.\n\n" ++
      "  --graphs      print the graphs of every rule\n" ++
      "  --omit STAGE  leave out a stage and all after it"
  | .unknownOption argument => s!"unknown option: {argument}"
  | .repeatedOption name => s!"option given twice: {name}"
  | .unexpectedValue argument => s!"unexpected value: {argument}"
  | .missingValue name => s!"missing value: {name}"
  | .unknownStage cause => cause.message
  | .emptyFile => "empty file name"
  | .noFile => "no file given"

namespace Options

/-- Whether a stage is left out. -/
def omits (o : Options) (s : Stage) : Bool :=
  match o.omitFrom with
  | some first => first.place ≤ s.place
  | none => false

/-- Add a file. -/
def addFile (o : Options) (file : String) : Except UsageError Options :=
  if file = "" then .error .emptyFile else .ok { o with files := o.files ++ [file] }

/-- Ask for the graphs. -/
def setGraphs (o : Options) : Except UsageError Options :=
  if o.graphs then .error (.repeatedOption "--graphs") else .ok { o with graphs := true }

/-- Leave out stages from the one with the given name on. -/
def setOmit (o : Options) (stage : String) : Except UsageError Options :=
  match o.omitFrom, Stage.ofText stage with
  | some _, _ => .error (.repeatedOption "--omit")
  | none, .ok s => .ok { o with omitFrom := some s }
  | none, .error e => .error (.unknownStage e)

/-- The rest of a text after a given start, if it starts so. -/
def after? (start text : String) : Option String :=
  if start.toList.isPrefixOf text.toList then
    some (String.ofList (text.toList.drop start.length))
  else
    none

/-- Whether an argument starts with a hyphen. -/
def startsWithHyphen (argument : String) : Bool := argument.toList.head? = some '-'

/-- Take in an argument that is complete by itself. -/
def addArgument (o : Options) (argument : String) : Except UsageError Options :=
  if argument = "--graphs" then o.setGraphs
  else if argument = "--help" ∨ argument = "-h" then .error .help
  else
    match after? "--omit=" argument, after? "--graphs=" argument with
    | some stage, _ => o.setOmit stage
    | _, some _ => .error (.unexpectedValue argument)
    | none, none =>
      if argument = "-" ∨ !startsWithHyphen argument then o.addFile argument
      else .error (.unknownOption argument)

/-- Take in arguments from left to right. -/
def addArguments (o : Options) : List String → Except UsageError Options
  | [] => .ok o
  | [argument] =>
    if argument = "--" then .ok o
    else if argument = "--omit" then .error (.missingValue argument)
    else o.addArgument argument
  | argument :: next :: rest => do
    if argument = "--" then
      (next :: rest).foldlM addFile o
    else if argument = "--omit" then
      if startsWithHyphen next then
        .error (.missingValue argument)
      else
        let o ← o.setOmit next
        addArguments o rest
    else
      let o ← o.addArgument argument
      addArguments o (next :: rest)

/-- The options that arguments give. -/
def ofArguments (arguments : List String) : Except UsageError Options := do
  let o ← ({} : Options).addArguments arguments
  if o.files = [] then .error .noFile else .ok o

end Options

end GraphTransform.Command
