import GraphTransform.Json.Token

/-!
# JSON parsing

The tokens of a text are read one after the other. What is unfinished stands in frames, the
innermost first: an array with the items before the one that is being read, or an object with the
members before and the name of the one that is being read. Next to the frames, the expectation
tells what may come next. The tokens are those of a value if they end where nothing but the value
is left.
-/

namespace GraphTransform

namespace Json

/-- An array or an object whose items or members, given latest first, go on after the value that is
being read. -/
inductive Frame where
  | array (items : List Json)
  | object (members : List (Option String × Json)) (name : Option String)

/-- What may come next. -/
inductive Expectation where
  /-- A value. -/
  | value
  /-- The first item of an array, or its end. -/
  | firstItem
  /-- The name of the first member of an object, or its end. -/
  | firstName
  /-- The name of a member. -/
  | name (members : List (Option String × Json))
  /-- The colon after a name. -/
  | colon (members : List (Option String × Json)) (name : Option String)
  /-- A comma or the end of an array. -/
  | afterItem (items : List Json)
  /-- A comma or the end of an object. -/
  | afterMember (members : List (Option String × Json))
  /-- Nothing, since the value is complete. -/
  | nothing (j : Json)

/-- What is expected, and the frames around it. -/
abbrev State := Expectation × List Frame

/-- Go on after a complete value. -/
def resume (j : Json) : List Frame → State
  | [] => (.nothing j, [])
  | .array items :: frames => (.afterItem (j :: items), frames)
  | .object members name :: frames => (.afterMember ((name, j) :: members), frames)

/-- Read the first token of a value. -/
def openValue (frames : List Frame) : Token → Option State
  | .scalar s => some (resume (.scalar s) frames)
  | .openArray => some (.firstItem, frames)
  | .openObject => some (.firstName, frames)
  | _ => none

/-- Read a token. -/
def step : State → Token → Option State
  | (.value, frames), t => openValue frames t
  | (.firstItem, frames), .closeArray => some (resume (.array []) frames)
  | (.firstItem, frames), t => openValue (.array [] :: frames) t
  | (.firstName, frames), .closeObject => some (resume (.object []) frames)
  | (.firstName, frames), .scalar (.string name) => some (.colon [] name, frames)
  | (.name members, frames), .scalar (.string name) => some (.colon members name, frames)
  | (.colon members name, frames), .colon => some (.value, .object members name :: frames)
  | (.afterItem items, frames), .comma => some (.value, .array items :: frames)
  | (.afterItem items, frames), .closeArray => some (resume (.array items.reverse) frames)
  | (.afterMember members, frames), .comma => some (.name members, frames)
  | (.afterMember members, frames), .closeObject => some (resume (.object members.reverse) frames)
  | _, _ => none

/-- The value whose tokens are given. -/
def ofTokens? (tokens : List Token) : Option Json :=
  match tokens.foldlM step (.value, []) with
  | some (.nothing j, _) => some j
  | _ => none

/-- The value that a text stands for. -/
def parse? (text : String) : Option Json := (Token.ofText? text).bind ofTokens?

end Json

end GraphTransform
