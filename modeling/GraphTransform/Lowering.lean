import GraphTransform.Delta.Edges
import GraphTransform.Lowering.Sides

/-!
# Lowering

Lowering turns a declaration into a rule: both sides are built, their items are compared, and the
condition is checked. It fails with the first error in the order of its steps. Its log says what
happened up to there.

`Lowering.stepsBy` is lowering for any recorder, and `Lowering.steps` keeps the log.
-/

namespace GraphTransform

open Lowering (Event)

namespace Lowering

/-- Compare both sides. -/
def delta (d : RuleDecl) (s : Sides) : Traced Event DeclError Delta := do
  let δ := Delta.ofNodes s.lhs s.rhs s.nodes
  Traced.emitAll (Delta.nodeEvents s.nodes)
  let (preservedEdges, addedEdges, remaining) ←
    Delta.ofEdges d.rhs.edges s.leftEdges s.nodes s.lhs s.rhs
  Traced.emit
    (.countedNodes δ.preservedNodes.length δ.deletedNodes.length δ.addedNodes.length)
  Traced.emit (.countedEdges preservedEdges.length remaining.size addedEdges.length)
  return { δ with preservedEdges, addedEdges }

/-- Check the condition, if there is one. -/
def checkCondition (Γ : Scope) : Option Condition → Traced Event DeclError Unit
  | none => pure ()
  | some c => do
    Γ.checkCondition c
    Traced.emit (.accepted c)

/-- The steps from a declaration to a rule. -/
def stepsBy {ω : Type} (R : Recorder ω) (d : RuleDecl) : Traced ω DeclError Rule := do
  R.note (.started d.name)
  let s ← sidesBy R d
  let δ ← R.relay (delta d s)
  R.relay (checkCondition s.scope d.condition)
  let r : Rule :=
    { name := d.name, vars := s.vars, lhs := s.lhs, rhs := s.rhs, delta := δ,
      condition := d.condition }
  R.note (.finished d.name r.flags)
  return r

/-- The steps from a declaration to a rule, with the log. -/
def steps (d : RuleDecl) : Traced Event DeclError Rule := stepsBy .log d

/-- The recorder does not change the rule. -/
theorem result_stepsBy {ω : Type} (R : Recorder ω) (d : RuleDecl) :
    (stepsBy R d).result = (steps d).result := by
  simp only [steps, stepsBy, Traced.result_bind, Traced.result_pure, Recorder.result_note,
    Recorder.result_relay, result_sidesBy]

end Lowering

namespace RuleDecl

/-- Lower a declaration and keep the log. -/
def lowerTraced (d : RuleDecl) : Traced Event RuleError Rule :=
  (Lowering.steps d).onError fun cause => ([.failed d.name cause], ⟨d.name, cause⟩)

/-- Lower a declaration. -/
def lower (d : RuleDecl) : Except RuleError Rule := d.lowerTraced.result

/-- Lower some declarations, up to the first failure. -/
def lowerAll (ds : List RuleDecl) : Except RuleError (List Rule) := ds.mapM lower

end RuleDecl

end GraphTransform
