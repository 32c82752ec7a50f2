import GraphTransform.Format.Tag
import GraphTransform.Json.Printer

/-!
# Encoding

The canonical JSON of declarations: every structure is an object with all its fields, what is
missing is null, and every case is an object whose only member has its word as name, or just the
word if it has no parts.
-/

namespace GraphTransform

/-- The JSON of a case: an object with a single member. -/
def Json.variant (tag : String) (payload : Json) : Json := .record [(tag, payload)]

/-- The JSON of something that may be missing. -/
def Json.optional {α : Type} (toJson : α → Json) : Option α → Json
  | none => .null
  | some a => toJson a

/-- The JSON of a list. -/
def Json.list {α : Type} (toJson : α → Json) (as : List α) : Json := .array (as.map toJson)

/-- The JSON of an atom. -/
def Atom.toJson : Atom → Json
  | .int n => .variant "int" (.int n.toInt)
  | .str s => .variant "str" (.str s)
  | .var x => .variant "var" (.str x)
  | .degree d n => .variant d.tag (.str n)
  | .length x => .variant "length" (.str x)
  | .neg a => .variant "neg" a.toJson
  | .arith op a b => .variant op.tag (.array [a.toJson, b.toJson])
  | .concat a b => .variant "concat" (.array [a.toJson, b.toJson])

/-- The JSON of a label. -/
def Label.toJson (l : Label) : Json :=
  .record [("mark", .str l.mark.tag), ("list", .list Atom.toJson l.list)]

/-- The JSON of a condition. -/
def Condition.toJson : Condition → Json
  | .is test x => .variant test.tag (.str x)
  | .edge s t l =>
    .variant "edge"
      (.record [("source", .str s), ("target", .str t), ("label", .optional Label.toJson l)])
  | .eq l r => .variant "eq" (.array [.list Atom.toJson l, .list Atom.toJson r])
  | .neq l r => .variant "neq" (.array [.list Atom.toJson l, .list Atom.toJson r])
  | .cmp op l r => .variant "cmp" (.array [.str op.tag, l.toJson, r.toJson])
  | .not c => .variant "not" c.toJson
  | .and c d => .variant "and" (.array [c.toJson, d.toJson])
  | .or c d => .variant "or" (.array [c.toJson, d.toJson])

/-- The JSON of a declared variable. -/
def Variable.toJson (v : Variable) : Json :=
  .record [("name", .str v.name), ("type", .str v.type.tag)]

/-- The JSON of a declared node. -/
def NodeDecl.toJson (n : NodeDecl) : Json :=
  .record [("id", .str n.id), ("root", .bool n.root), ("label", n.label.toJson)]

/-- The JSON of a declared edge. -/
def EdgeDecl.toJson (e : EdgeDecl) : Json :=
  .record [("id", .optional Json.str e.id), ("source", .str e.source), ("target", .str e.target),
    ("label", e.label.toJson)]

/-- The JSON of a declared side. -/
def GraphDecl.toJson (g : GraphDecl) : Json :=
  .record [("nodes", .list NodeDecl.toJson g.nodes), ("edges", .list EdgeDecl.toJson g.edges)]

namespace RuleDecl

/-- The JSON of a declared rule. -/
def toJson (d : RuleDecl) : Json :=
  .record [("name", .str d.name), ("variables", .list Variable.toJson d.vars),
    ("lhs", d.lhs.toJson), ("rhs", d.rhs.toJson),
    ("condition", .optional Condition.toJson d.condition)]

/-- The canonical text of some declarations. -/
def encode (ds : List RuleDecl) : String := (Json.list toJson ds).text

end RuleDecl

end GraphTransform
