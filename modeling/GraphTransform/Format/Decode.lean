import GraphTransform.Format.Reader
import GraphTransform.Format.Tag
import GraphTransform.Json.Parser

/-!
# Decoding

How declarations of rules are read from JSON. A text holds one array of rules, in which at most 127
levels of brackets may be open.
-/

namespace GraphTransform

/-- Read an atom: an object whose only member has the word for its case as its name. -/
def Atom.read : Reader Atom
  | n + 1, .object [(some tag, payload)] =>
    match Direction.ofTag? tag, ArithOp.ofTag? tag with
    | some d, _ => (Reader.text n payload).map (.degree d)
    | none, some op =>
      match n, payload with
      | m + 1, .array [j, k] => do
        let a ← Atom.read m j
        let b ← Atom.read m k
        return .arith op a b
      | _, _ => none
    | none, none =>
      if tag = "int" then (Reader.int n payload).map .int
      else if tag = "str" then (Reader.text n payload).map .str
      else if tag = "var" then (Reader.text n payload).map .var
      else if tag = "length" then (Reader.text n payload).map .length
      else if tag = "neg" then (Atom.read n payload).map .neg
      else if tag = "concat" then
        match n, payload with
        | m + 1, .array [j, k] => do
          let a ← Atom.read m j
          let b ← Atom.read m k
          return .concat a b
        | _, _ => none
      else none
  | _, _ => none

/-- Read a label. -/
def Label.read : Reader Label
  | 0, _ => none
  | n + 1, j => do
    let field ← Reader.fields ["mark", "list"] 0 j
    let mark ← Reader.withDefault .none (Reader.word Mark.ofTag?) n (field "mark")
    let list ← Reader.withDefault [] (Reader.list Atom.read) n (field "list")
    return ⟨mark, list⟩

namespace Condition

/-- Read a condition on an edge, without its word. -/
def readEdge : Reader Condition
  | 0, _ => none
  | n + 1, j => do
    let field ← Reader.fields ["source", "target", "label"] 3 j
    let source ← Reader.required Reader.text n (field "source")
    let target ← Reader.required Reader.text n (field "target")
    let label ← Reader.withDefault none (Reader.optional Label.read) n (field "label")
    return .edge source target label

/-- Read a comparison of integers, without its word. -/
def readCmp : Reader Condition
  | n + 1, .array [op, j, k] => do
    let op ← Reader.word RelOp.ofTag? n op
    let l ← Atom.read n j
    let r ← Atom.read n k
    return .cmp op l r
  | _, _ => none

/-- Read a condition: an object whose only member has the word for its case as its name. -/
def read : Reader Condition
  | n + 1, .object [(some tag, payload)] =>
    match ValueTest.ofTag? tag with
    | some test => (Reader.text n payload).map (.is test)
    | none =>
      if tag = "edge" then readEdge n payload
      else if tag = "eq" then
        (Reader.pair (Reader.list Atom.read) n payload).map fun (l, r) => .eq l r
      else if tag = "neq" then
        (Reader.pair (Reader.list Atom.read) n payload).map fun (l, r) => .neq l r
      else if tag = "cmp" then readCmp n payload
      else if tag = "not" then (read n payload).map .not
      else if tag = "and" then
        match n, payload with
        | m + 1, .array [j, k] => do
          let c ← read m j
          let d ← read m k
          return .and c d
        | _, _ => none
      else if tag = "or" then
        match n, payload with
        | m + 1, .array [j, k] => do
          let c ← read m j
          let d ← read m k
          return .or c d
        | _, _ => none
      else none
  | _, _ => none

end Condition

/-- Read the declaration of a variable. -/
def Variable.read : Reader Variable
  | 0, _ => none
  | n + 1, j => do
    let field ← Reader.fields ["name", "type"] 2 j
    let name ← Reader.required Reader.text n (field "name")
    let type ← Reader.required (Reader.word ValueType.ofTag?) n (field "type")
    return ⟨name, type⟩

/-- Read the declaration of a node. -/
def NodeDecl.read : Reader NodeDecl
  | 0, _ => none
  | n + 1, j => do
    let field ← Reader.fields ["id", "root", "label"] 1 j
    let id ← Reader.required Reader.text n (field "id")
    let root ← Reader.withDefault false Reader.bool n (field "root")
    let label ← Reader.withDefault {} Label.read n (field "label")
    return ⟨id, root, label⟩

/-- Read the declaration of an edge. -/
def EdgeDecl.read : Reader EdgeDecl
  | 0, _ => none
  | n + 1, j => do
    let field ← Reader.fields ["id", "source", "target", "label"] 3 j
    let id ← Reader.withDefault none (Reader.optional Reader.text) n (field "id")
    let source ← Reader.required Reader.text n (field "source")
    let target ← Reader.required Reader.text n (field "target")
    let label ← Reader.withDefault {} Label.read n (field "label")
    return ⟨id, source, target, label⟩

/-- Read the declaration of a side. -/
def GraphDecl.read : Reader GraphDecl
  | 0, _ => none
  | n + 1, j => do
    let field ← Reader.fields ["nodes", "edges"] 0 j
    let nodes ← Reader.withDefault [] (Reader.list NodeDecl.read) n (field "nodes")
    let edges ← Reader.withDefault [] (Reader.list EdgeDecl.read) n (field "edges")
    return ⟨nodes, edges⟩

namespace RuleDecl

/-- Read the declaration of a rule. -/
def read : Reader RuleDecl
  | 0, _ => none
  | n + 1, j => do
    let field ← Reader.fields ["name", "variables", "lhs", "rhs", "condition"] 4 j
    let name ← Reader.required Reader.text n (field "name")
    let vars ← Reader.withDefault [] (Reader.list Variable.read) n (field "variables")
    let lhs ← Reader.required GraphDecl.read n (field "lhs")
    let rhs ← Reader.required GraphDecl.read n (field "rhs")
    let condition ← Reader.withDefault none (Reader.optional Condition.read) n (field "condition")
    return ⟨name, vars, lhs, rhs, condition⟩

/-- The number of levels of brackets that may be open in a text. -/
def maxDepth : Nat := 127

/-- The rules that a text declares, unless it is malformed. -/
def decode? (text : String) : Option (List RuleDecl) :=
  (Json.parse? text).bind (Reader.list read maxDepth)

end RuleDecl

end GraphTransform
