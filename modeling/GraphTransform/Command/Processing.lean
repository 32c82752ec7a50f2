import GraphTransform.Command.Options
import GraphTransform.Format.Decode
import GraphTransform.Lowering
import GraphTransform.Rule.Report

/-!
# Processing

Every file is read, and the rules that it declares are lowered and reported on, one after the
other. Processing ends at the first failure; what was printed and recorded before it stays.
-/

namespace GraphTransform.Command

/-- An input with the name that records give it. Its content is Unicode text. Bytes that are not
UTF-8 have none, and the input then counts as malformed, even if the bytes only stand inside a
string that is read past, where a decoder of bytes would not look at them. -/
structure Source where
  /-- The name. -/
  name : String
  /-- The text, unless the input cannot be opened. -/
  content : Option String
deriving DecidableEq

/-- What processing leaves. -/
inductive Output where
  /-- The rules of a source are read. -/
  | read (count : Nat) (source : String)
  /-- The lowering of a rule begins. -/
  | lowering (rule : String)
  /-- A rule is lowered. -/
  | lowered (rule : String) (preserved deleted added : Nat)
  /-- A text goes to the standard output. -/
  | printed (text : String)
deriving DecidableEq

/-- The message of the record that an output is, if it is not printed. -/
def Output.message? : Output → Option String
  | .read count source => some s!"Read {count} rules from {source}"
  | .lowering rule => some s!"Lower rule {rule}"
  | .lowered rule p d a => some s!"Rule {rule}: {p} preserved, {d} deleted, {a} added nodes"
  | .printed _ => none

/-- The text that an output prints, if it is not a record. -/
def Output.printed? : Output → Option String
  | .printed text => some text
  | _ => none

/-- A reason why processing ends early. -/
inductive Failure where
  /-- A source cannot be read. -/
  | unreadable (source : String)
  /-- The text of a source is malformed. -/
  | malformed (source : String)
  /-- A declaration describes no rule. -/
  | refused (error : RuleError)
deriving DecidableEq

/-- The technical form of a failure. What exactly the system or the reading of the text met with is
not known here and left out. -/
def Failure.debugText : Failure → String
  | .unreadable _ => "Io(..)"
  | .malformed _ => "Json(..)"
  | .refused error => s!"Lower({error.debugText})"

/-- A computation that prints and keeps records. -/
abbrev Process := Traced Output Failure

/-- Print the report on a rule, unless printing is left out. -/
def printRule (o : Options) (r : Rule) : Process Unit :=
  if o.omits .print then pure () else Traced.emit (.printed (r.report o.graphs ++ "\n\n"))

/-- Lower a declaration and print the report on its rule. -/
def processRule (o : Options) (d : RuleDecl) : Process Unit := do
  Traced.emit (.lowering d.name)
  let r ← (d.lower.mapError Failure.refused : Except Failure Rule)
  Traced.emit (.lowered r.name r.preservedNodes.length r.deletedNodes.length r.addedNodes.length)
  printRule o r

/-- Process the rules of a source, unless lowering is left out. -/
def processRules (o : Options) (ds : List RuleDecl) : Process Unit :=
  if o.omits .lower then pure () else ds.forM (processRule o)

/-- Read a source and process its rules. -/
def processSource (o : Options) (source : Source) : Process Unit :=
  match source.content with
  | none => Traced.fail (.unreadable source.name)
  | some text =>
    match RuleDecl.decode? text with
    | none => Traced.fail (.malformed source.name)
    | some ds => do
      Traced.emit (.read ds.length source.name)
      processRules o ds

/-- Process some sources in order. -/
def run (o : Options) (sources : List Source) : Process Unit := sources.forM (processSource o)

/-- The sources that files name, given the texts of files and of the standard input. The standard
input is used up the first time that it is named. -/
def sources (fileText : String → Option String) (input : String) : List String → List Source
  | [] => []
  | file :: rest =>
    if file = "-" then ⟨"<stdin>", some input⟩ :: sources fileText "" rest
    else ⟨file, fileText file⟩ :: sources fileText input rest

end GraphTransform.Command
