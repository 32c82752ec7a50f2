import GraphTransform.Format.Decode
import GraphTransform.Format.Encode

/-!
# The schema of the format

What the JSON of rules is made of, in one table: the structures, the fields of each in their order,
and for every field how it is written and what it stands for if it is absent. Reading a structure is
reading the fields of the table, and encoding it is writing them all (`Record.read_eq_some_iff`,
`Record.toJson_eq`). What holds of every field therefore holds of all structures.
-/

namespace GraphTransform

/-- A structure of the format, by the type of what it declares. -/
inductive Record : Type → Type where
  | rule : Record RuleDecl
  | graph : Record GraphDecl
  | node : Record NodeDecl
  | edge : Record EdgeDecl
  | label : Record Label
  | var : Record Variable
  /-- The source, the target and the label of a condition on an edge. -/
  | edgeTest : Record (String × String × Option Label)

/-- A kind of values, by their type. None of them is written as null. -/
inductive Kind : Type → Type 1 where
  | text : Kind String
  | bool : Kind Bool
  | mark : Kind Mark
  | type : Kind ValueType
  | atom : Kind Atom
  | condition : Kind Condition
  | record {α : Type} (r : Record α) : Kind α

/-- A value of a kind, a list of such values, or such a value that may be missing. -/
inductive Form : Type → Type 1 where
  | one {α : Type} (k : Kind α) : Form α
  | list {α : Type} (k : Kind α) : Form (List α)
  | optional {α : Type} (k : Kind α) : Form (Option α)

/-- A field of a structure. -/
structure Field (α : Type) where
  /-- The type of its values. -/
  {β : Type}
  /-- The name of its member. -/
  name : String
  /-- How a value is written. -/
  form : Form β
  /-- What the field stands for if it is absent, unless it has to be present. -/
  absent : Option β
  /-- The value of the field. -/
  get : α → β

namespace Record

/-- The fields in their declared order. -/
def fields : {α : Type} → Record α → List (Field α)
  | _, .rule =>
    [⟨"name", .one .text, none, RuleDecl.name⟩,
      ⟨"variables", .list (.record .var), some [], RuleDecl.vars⟩,
      ⟨"lhs", .one (.record .graph), none, RuleDecl.lhs⟩,
      ⟨"rhs", .one (.record .graph), none, RuleDecl.rhs⟩,
      ⟨"condition", .optional .condition, some none, RuleDecl.condition⟩]
  | _, .graph =>
    [⟨"nodes", .list (.record .node), some [], GraphDecl.nodes⟩,
      ⟨"edges", .list (.record .edge), some [], GraphDecl.edges⟩]
  | _, .node =>
    [⟨"id", .one .text, none, NodeDecl.id⟩,
      ⟨"root", .one .bool, some false, NodeDecl.root⟩,
      ⟨"label", .one (.record .label), some {}, NodeDecl.label⟩]
  | _, .edge =>
    [⟨"id", .optional .text, some none, EdgeDecl.id⟩,
      ⟨"source", .one .text, none, EdgeDecl.source⟩,
      ⟨"target", .one .text, none, EdgeDecl.target⟩,
      ⟨"label", .one (.record .label), some {}, EdgeDecl.label⟩]
  | _, .label =>
    [⟨"mark", .one .mark, some .none, Label.mark⟩,
      ⟨"list", .list .atom, some [], Label.list⟩]
  | _, .var =>
    [⟨"name", .one .text, none, Variable.name⟩,
      ⟨"type", .one .type, none, Variable.type⟩]
  | _, .edgeTest =>
    [⟨"source", .one .text, none, fun e => e.1⟩,
      ⟨"target", .one .text, none, fun e => e.2.1⟩,
      ⟨"label", .optional (.record .label), some none, fun e => e.2.2⟩]

/-- The names of the fields. -/
def names {α : Type} (r : Record α) : List String := r.fields.map (·.name)

/-- The number of fields that an array has to have at least. -/
def least : {α : Type} → Record α → Nat
  | _, .rule => 4
  | _, .graph => 0
  | _, .node => 1
  | _, .edge => 3
  | _, .label => 0
  | _, .var => 2
  | _, .edgeTest => 3

theorem least_le {α : Type} (r : Record α) : r.least ≤ r.fields.length := by
  cases r <;> decide

theorem nodup_names {α : Type} (r : Record α) : r.names.Nodup := by
  cases r <;> decide

/-- How a structure is read. -/
def read : {α : Type} → Record α → Reader α
  | _, .rule => RuleDecl.read
  | _, .graph => GraphDecl.read
  | _, .node => NodeDecl.read
  | _, .edge => EdgeDecl.read
  | _, .label => Label.read
  | _, .var => Variable.read
  | _, .edgeTest => fun n j =>
    (Condition.readEdge n j).bind fun
      | .edge s t l => some (s, t, l)
      | _ => none

/-- How a structure is encoded. -/
def toJson : {α : Type} → Record α → α → Json
  | _, .rule => RuleDecl.toJson
  | _, .graph => GraphDecl.toJson
  | _, .node => NodeDecl.toJson
  | _, .edge => EdgeDecl.toJson
  | _, .label => Label.toJson
  | _, .var => Variable.toJson
  | _, .edgeTest => fun (s, t, l) =>
    .record [("source", .str s), ("target", .str t), ("label", .optional Label.toJson l)]

end Record

namespace Kind

/-- How a value is read. -/
def read : {α : Type} → Kind α → Reader α
  | _, .text => Reader.text
  | _, .bool => Reader.bool
  | _, .mark => Reader.word Mark.ofTag?
  | _, .type => Reader.word ValueType.ofTag?
  | _, .atom => Atom.read
  | _, .condition => Condition.read
  | _, .record r => r.read

/-- How a value is encoded. -/
def toJson : {α : Type} → Kind α → α → Json
  | _, .text => Json.str
  | _, .bool => Json.bool
  | _, .mark => fun m => .str m.tag
  | _, .type => fun t => .str t.tag
  | _, .atom => Atom.toJson
  | _, .condition => Condition.toJson
  | _, .record r => r.toJson

end Kind

namespace Form

/-- How a value is read. -/
def read : {α : Type} → Form α → Reader α
  | _, .one k => k.read
  | _, .list k => Reader.list k.read
  | _, .optional k => Reader.optional k.read

/-- How a value is encoded. -/
def toJson : {α : Type} → Form α → α → Json
  | _, .one k => k.toJson
  | _, .list k => Json.list k.toJson
  | _, .optional k => Json.optional k.toJson

end Form

/-- How a field is read, which may be absent. -/
def Field.read {α : Type} (f : Field α) (n : Nat) : Option Json → Option f.β
  | some j => f.form.read n j
  | none => f.absent

theorem Field.read_required {α β : Type} {name : String} {form : Form β} {get : α → β} (n : Nat)
    (o : Option Json) : Field.read ⟨name, form, none, get⟩ n o = Reader.required form.read n o := by
  cases o <;> rfl

theorem Field.read_withDefault {α β : Type} {name : String} {form : Form β} {b : β} {get : α → β}
    (n : Nat) (o : Option Json) :
    Field.read ⟨name, form, some b, get⟩ n o = Reader.withDefault b form.read n o := by
  cases o <;> rfl

/-- A structure is read by reading its fields. -/
theorem Record.read_eq_some_iff {α : Type} (r : Record α) {n : Nat} {j : Json} {a : α} :
    r.read n j = some a ↔ ∃ m field, n = m + 1 ∧ Reader.fields r.names r.least j = some field ∧
      ∀ f ∈ r.fields, f.read m (field f.name) = some (f.get a) := by
  cases n with
  | zero =>
    cases r <;> simp [read, RuleDecl.read, GraphDecl.read, NodeDecl.read, EdgeDecl.read,
      Label.read, Variable.read, Condition.readEdge]
  | succ m =>
    cases r
    case edgeTest =>
      obtain ⟨s, t, l⟩ := a
      simp only [read, Condition.readEdge, fields, names, least, Field.read_required,
        Field.read_withDefault, Form.read, Kind.read, Option.bind_eq_bind, Option.bind_eq_some_iff,
        List.map_cons, List.map_nil, List.forall_mem_cons, Nat.add_right_cancel_iff]
      constructor
      · rintro ⟨_, ⟨field, hfield, s', hs, t', ht, l', hl, ⟨⟩⟩, h⟩
        cases h
        exact ⟨m, field, rfl, hfield, hs, ht, hl, List.forall_mem_nil _⟩
      · rintro ⟨_, field, rfl, hfield, hs, ht, hl, -⟩
        exact ⟨_, ⟨field, hfield, s, hs, t, ht, l, hl, rfl⟩, rfl⟩
    all_goals
      cases a
      simp only [read, RuleDecl.read, GraphDecl.read, NodeDecl.read, EdgeDecl.read, Label.read,
        Variable.read, fields, names, least, Field.read_required, Field.read_withDefault, Form.read,
        Kind.read, Option.bind_eq_bind, Option.bind_eq_some_iff, Option.pure_def, Option.some.injEq,
        List.map_cons, List.map_nil, List.forall_mem_cons, Nat.add_right_cancel_iff]
      grind

/-- A structure is encoded with all its fields. -/
theorem Record.toJson_eq {α : Type} (r : Record α) (a : α) :
    r.toJson a = .record (r.fields.map fun f => (f.name, f.form.toJson (f.get a))) := by
  cases r <;> rfl

/-! ### Atoms and conditions, case by case -/

namespace Atom

variable (n : Nat) (j k : Json)

theorem read_int : read (n + 1) (.variant "int" j) = (Reader.int n j).map .int := by
  delta read
  rfl

theorem read_str : read (n + 1) (.variant "str" j) = (Reader.text n j).map .str := by
  delta read
  rfl

theorem read_var : read (n + 1) (.variant "var" j) = (Reader.text n j).map .var := by
  delta read
  rfl

theorem read_degree (d : Direction) :
    read (n + 1) (.variant d.tag j) = (Reader.text n j).map (.degree d) := by
  delta read
  cases d <;> rfl

theorem read_length : read (n + 1) (.variant "length" j) = (Reader.text n j).map .length := by
  delta read
  rfl

theorem read_neg : read (n + 1) (.variant "neg" j) = (read n j).map .neg := by
  delta read
  rfl

theorem read_arith (op : ArithOp) : read (n + 2) (.variant op.tag (.array [j, k])) = do
    let a ← read n j
    let b ← read n k
    return .arith op a b := by
  delta read
  cases op <;> rfl

theorem read_concat : read (n + 2) (.variant "concat" (.array [j, k])) = do
    let a ← read n j
    let b ← read n k
    return .concat a b := by
  delta read
  rfl

end Atom

namespace Condition

variable (n : Nat) (j k : Json)

theorem read_is (test : ValueTest) :
    read (n + 1) (.variant test.tag j) = (Reader.text n j).map (.is test) := by
  delta read
  cases test <;> rfl

theorem exists_edge_of_readEdge {n : Nat} {j : Json} {c : Condition} (h : readEdge n j = some c) :
    ∃ s t l, c = .edge s t l := by
  cases n with
  | zero => cases h
  | succ n =>
    simp only [readEdge, Option.bind_eq_bind, Option.bind_eq_some_iff] at h
    obtain ⟨_, -, s, -, t, -, l, -, h⟩ := h
    exact ⟨s, t, l, (Option.some.inj h).symm⟩

theorem read_edge : read (n + 1) (.variant "edge" j) = readEdge n j := by
  delta read
  rfl

theorem readEdge_eq :
    readEdge n j = (Record.edgeTest.read n j).map fun (s, t, l) => .edge s t l := by
  cases h : readEdge n j with
  | none => simp [Record.read, h]
  | some c =>
    obtain ⟨s, t, l, rfl⟩ := exists_edge_of_readEdge h
    simp [Record.read, h]

theorem read_eq : read (n + 1) (.variant "eq" j) =
    (Reader.pair (Reader.list Atom.read) n j).map fun (l, r) => .eq l r := by
  delta read
  rfl

theorem read_neq : read (n + 1) (.variant "neq" j) =
    (Reader.pair (Reader.list Atom.read) n j).map fun (l, r) => .neq l r := by
  delta read
  rfl

theorem read_cmp : read (n + 1) (.variant "cmp" j) = readCmp n j := by
  delta read
  rfl

theorem read_not : read (n + 1) (.variant "not" j) = (read n j).map .not := by
  delta read
  rfl

theorem read_and : read (n + 2) (.variant "and" (.array [j, k])) = do
    let c ← read n j
    let d ← read n k
    return .and c d := by
  delta read
  rfl

theorem read_or : read (n + 2) (.variant "or" (.array [j, k])) = do
    let c ← read n j
    let d ← read n k
    return .or c d := by
  delta read
  rfl

end Condition

/-! ### The members of an object -/

namespace Reader

/-- The value of the first member with a name. -/
def member? (members : List (Option String × Json)) (name : String) : Option Json :=
  (members.find? (·.1 = some name)).map (·.2)

theorem wellNamed_iff {names : List String} {members : List (Option String × Json)} :
    wellNamed names members = true ↔ (∀ m ∈ members, m.1.isSome = true) ∧
      ∀ name ∈ names, members.countP (·.1 = some name) ≤ 1 := by
  simp only [wellNamed, Bool.and_eq_true, List.all_eq_true, decide_eq_true_eq]

theorem fields_object_eq_some_iff {names : List String} {least : Nat}
    {members : List (Option String × Json)} {field : String → Option Json} :
    fields names least (.object members) = some field ↔
      wellNamed names members = true ∧ field = member? members := by
  rw [fields]
  split
  · next h => simp [h, eq_comm, member?, funext_iff]
  · next h => simp [h]

/-- A known name comes once at most, so that its first member is the only one. -/
theorem member?_eq_some_iff {names : List String} {members : List (Option String × Json)}
    {name : String} {j : Json} (h : wellNamed names members = true) (hname : name ∈ names) :
    member? members name = some j ↔ (some name, j) ∈ members := by
  have hcount := (wellNamed_iff.mp h).2 name hname
  rw [member?, Option.map_eq_some_iff]
  constructor
  · rintro ⟨⟨key, j⟩, hfind, rfl⟩
    obtain rfl : key = some name := by simpa using List.find?_some hfind
    exact List.mem_of_find?_eq_some hfind
  · intro hj
    obtain ⟨m, hm⟩ : ∃ m, members.find? (·.1 = some name) = some m :=
      Option.isSome_iff_exists.mp (List.find?_isSome.mpr ⟨_, hj, by simp⟩)
    refine ⟨m, hm, ?_⟩
    obtain ⟨hkey, before, after, rfl, hbefore⟩ := List.find?_eq_some_iff_append.mp hm
    rw [List.countP_append, List.countP_cons, if_pos hkey] at hcount
    obtain hj | hj := List.mem_append.mp hj
    · simpa using hbefore _ hj
    · obtain rfl | hj := List.mem_cons.mp hj
      · rfl
      · have : 0 < after.countP (·.1 = some name) := List.countP_pos_iff.mpr ⟨_, hj, by simp⟩
        omega

theorem member?_eq_none_iff {names : List String} {members : List (Option String × Json)}
    {name : String} (h : wellNamed names members = true) (hname : name ∈ names) :
    member? members name = none ↔ ∀ j, (some name, j) ∉ members := by
  rw [Option.eq_none_iff_forall_not_mem]
  exact forall_congr' fun j => not_congr (member?_eq_some_iff h hname)

end Reader

end GraphTransform
