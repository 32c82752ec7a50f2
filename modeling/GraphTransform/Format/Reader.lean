import GraphTransform.Integer
import GraphTransform.Json

/-!
# Readers

A reader takes a JSON value for a value of some type, or refuses it. It is told how many levels of
brackets it may open; an array or an object that is looked at opens one. What it ignores does not
count.

A structure is an object, whose members may come in any order and may be joined by others with
unknown names, or an array of its fields in their order, from which fields may be left off at the
end. A known name must not come twice, and every name has to be Unicode text.
-/

namespace GraphTransform

/-- How a value is read from JSON, given the number of levels of brackets that may be opened. -/
abbrev Reader (α : Type) := Nat → Json → Option α

namespace Reader

variable {α : Type}

/-- Read a string. -/
def text : Reader String
  | _, .scalar (.string s) => s
  | _, _ => none

/-- Read a truth value. -/
def bool : Reader Bool
  | _, .scalar (.bool b) => some b
  | _, _ => none

/-- Read an integer of 64 bits. -/
def int : Reader Int64
  | _, .scalar (.number (some n)) => toInt64? n
  | _, _ => none

/-- Read a list. -/
def list (read : Reader α) : Reader (List α)
  | n + 1, .array items => items.mapM (read n)
  | _, _ => none

/-- Read two values of one type. -/
def pair (read : Reader α) : Reader (α × α)
  | n + 1, .array [j, k] => do
    let a ← read n j
    let b ← read n k
    return (a, b)
  | _, _ => none

/-- Read a value that may be missing, which null tells. -/
def optional (read : Reader α) : Reader (Option α)
  | _, .scalar .null => some none
  | n, j => (read n j).map some

/-- Read a case without parts: a word, or an object whose only member has this name and is null. -/
def word (ofTag? : String → Option α) : Reader α
  | _, .scalar (.string (some tag)) => ofTag? tag
  | _ + 1, .object [(some tag, .scalar .null)] => ofTag? tag
  | _, _ => none

/-- Whether every name of some members is text and no name in `names` comes twice. -/
def wellNamed (names : List String) (members : List (Option String × Json)) : Bool :=
  members.all (·.1.isSome) && names.all fun name => members.countP (·.1 = some name) ≤ 1

/-- The fields of a structure with the given names, of which an array has at least `least`. -/
def fields (names : List String) (least : Nat) : Json → Option (String → Option Json)
  | .object members =>
    if wellNamed names members then
      some fun name => (members.find? (·.1 = some name)).map (·.2)
    else
      none
  | .array items =>
    if least ≤ items.length ∧ items.length ≤ names.length then
      some fun name => items[names.idxOf name]?
    else
      none
  | _ => none

/-- Read a field that has to be present. -/
def required (read : Reader α) (n : Nat) : Option Json → Option α
  | some j => read n j
  | none => none

/-- Read a field that stands for `a` if it is absent. -/
def withDefault (a : α) (read : Reader α) (n : Nat) : Option Json → Option α
  | some j => read n j
  | none => some a

end Reader

end GraphTransform
