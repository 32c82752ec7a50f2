import GraphTransform.Rule

/-!
# Reports

The report on a rule: a line for its name, its variables, its flags, each of its delta lists and
its condition, and on demand a line for each graph.
-/

namespace GraphTransform

/-- The entries of a line of the report; a dash stands for none. -/
def reportEntries : List String → String
  | [] => " -"
  | entries => " " ++ ", ".intercalate entries

/-- The words for the flags that are set. -/
def Flags.words (f : Flags) : List String :=
  (if f.isPredicate then ["predicate"] else []) ++
    (if f.deletesNodes then ["deletes nodes"] else []) ++
    (if f.isRooted then ["rooted"] else [])

namespace Rule

/-- The lines of the report on a rule without the graphs. -/
def reportLines (r : Rule) : List String :=
  ["rule " ++ r.name,
    "variables:" ++ reportEntries (r.vars.toList.map Variable.text),
    "flags:" ++ reportEntries r.flags.words,
    "preserved nodes:" ++ reportEntries (r.preservedNodes.map Preserved.text),
    "preserved edges:" ++ reportEntries (r.preservedEdges.map Preserved.text),
    "deleted nodes:" ++ reportEntries (r.deletedNodes.map toString),
    "deleted edges:" ++ reportEntries (r.deletedEdges.map toString),
    "added nodes:" ++ reportEntries (r.addedNodes.map toString),
    "added edges:" ++ reportEntries (r.addedEdges.map AddedEdge.text),
    "condition:" ++ reportEntries (r.condition.toList.map Condition.text)]

/-- The lines for the graphs of a rule. -/
def graphLines (r : Rule) : List String := ["lhs: " ++ r.lhs.text, "rhs: " ++ r.rhs.text]

/-- The report on a rule, with or without its graphs. -/
def report (r : Rule) (graphs : Bool) : String :=
  "\n".intercalate (r.reportLines ++ if graphs then r.graphLines else [])

/-- The report with the graphs is the one without them, followed by a line for each graph. -/
theorem report_eq (r : Rule) (graphs : Bool) :
    r.report graphs =
      r.report false ++
        if graphs then "\nlhs: " ++ r.lhs.text ++ "\nrhs: " ++ r.rhs.text else "" := by
  cases graphs with
  | false => exact (String.append_empty ..).symm
  | true =>
    have hlines : r.reportLines ≠ [] := List.cons_ne_nil _ _
    have hgraphs : r.graphLines ≠ [] := List.cons_ne_nil _ _
    rw [report, report, if_pos rfl, if_pos rfl, if_neg Bool.false_ne_true, List.append_nil,
      String.intercalate_append_of_ne_nil hlines hgraphs, graphLines,
      String.intercalate_cons_cons, String.intercalate_singleton]
    simp only [String.append_assoc]
    rfl

end Rule

end GraphTransform
