import GraphTransform.Command.Processing
import GraphTransform.Proofs.Sequences

/-!
# Visits

Processing makes one visit after the other: each source is read, and then each rule that it declares
is lowered, unless lowering is left out. It ends at the first visit that fails, with this failure.

So a run is told by the list of its visits alone. Its result is the first failure among them, its
trace is made of what the visits up to this failure leave, and what it prints are the reports on the
rules that were lowered before it (`run_visitsInOrder`). For the rules of one source this is what
lowering all of them yields (`RuleDecl.lowerAll`).
-/

namespace GraphTransform

/-! ### Sequences that end early -/

namespace Traced

variable {ω ε α : Type}

/-- The outcome of a computation that yields nothing, given its failure, if it has one. -/
def outcome : Option ε → Except ε Unit
  | none => .ok ()
  | some e => .error e

/-- The elements up to the first one that fails, this one included. -/
def reached (failure? : α → Option ε) (as : List α) : List α :=
  as.takeWhile (fun a => (failure? a).isNone) ++ (as.find? fun a => (failure? a).isSome).toList

section Sequence

variable {failure? : α → Option ε} {f : α → Traced ω ε Unit}
  (hf : ∀ a, (f a).result = outcome (failure? a))

include hf

/-- A sequence fails with the first failure of its parts. -/
theorem result_forM (as : List α) : (as.forM f).result = outcome (as.findSome? failure?) := by
  induction as with
  | nil => rfl
  | cons a rest ih =>
    rw [List.forM, result_bind, hf, List.findSome?_cons]
    cases failure? a with
    | none => exact ih
    | some e => rfl

/-- A sequence leaves what its parts leave, up to the first one that fails. -/
theorem trace_forM (as : List α) :
    (as.forM f).trace = (reached failure? as).flatMap fun a => (f a).trace := by
  induction as with
  | nil => rfl
  | cons a rest ih =>
    rw [List.forM]
    cases ha : failure? a with
    | none =>
      have hok : (f a).result = .ok () := by rw [hf, ha, outcome]
      rw [trace_bind_of_ok hok, ih]
      simp [reached, ha]
    | some e =>
      have herror : (f a).result = .error e := by rw [hf, ha, outcome]
      rw [trace_bind_of_error herror]
      simp [reached, ha]

end Sequence

end Traced

namespace Command

open Traced (outcome reached)

/-! ### The visits of a run -/

/-- A step of processing. -/
inductive Visit where
  /-- A source is opened and decoded. -/
  | source (s : Source)
  /-- A declared rule is lowered. -/
  | rule (d : RuleDecl)

/-- The rules that a source declares, if it can be read. -/
def Source.decls (s : Source) : List RuleDecl := (s.content.bind RuleDecl.decode?).getD []

/-- The visits to a source and to the rules that it declares. -/
def Source.visits (s : Source) : List Visit := .source s :: s.decls.map .rule

namespace Visit

/-- Why a visit fails, if it does. -/
def failure? : Visit → Option Failure
  | .source s =>
    match s.content with
    | none => some (.unreadable s.name)
    | some text => if (RuleDecl.decode? text).isNone then some (.malformed s.name) else none
  | .rule d =>
    match d.lower with
    | .ok _ => none
    | .error e => some (.refused e)

/-- The rule that a visit yields, if it does. -/
def rule? : Visit → Option Rule
  | .source _ => none
  | .rule d => d.lower.toOption

/-- The text that is printed for a rule: the report, which ends with a line for each graph if the
graphs are asked for (`Rule.report_eq`). -/
def reportText (graphs : Bool) (r : Rule) : String := r.report graphs ++ "\n\n"

/-- What a visit leaves. -/
def outputs (o : Options) : Visit → List Output
  | .source s =>
    match s.content.bind RuleDecl.decode? with
    | some ds => [.read ds.length s.name]
    | none => []
  | .rule d =>
    .lowering d.name ::
      match d.lower with
      | .ok r =>
        .lowered r.name r.preservedNodes.length r.deletedNodes.length r.addedNodes.length ::
          if o.omits .print then [] else [.printed (reportText o.graphs r)]
      | .error _ => []

/-- Make a visit. -/
def process (o : Options) (v : Visit) : Process Unit := ⟨v.outputs o, outcome v.failure?⟩

/-- Lowering a rule is a visit. -/
theorem processRule_eq (o : Options) (d : RuleDecl) : processRule o d = (rule d).process o := by
  unfold processRule process outputs failure?
  cases h : d.lower with
  | error e => simp only [h]; rfl
  | ok r =>
    simp only [h, printRule]
    cases o.omits .print <;> rfl

/-- A source is visited before the rules that it declares. -/
theorem processSource_eq (o : Options) (s : Source) :
    processSource o s = (source s).process o >>= fun _ => processRules o s.decls := by
  obtain ⟨name, content⟩ := s
  cases content with
  | none => rfl
  | some text =>
    simp only [processSource, process, outputs, failure?, Source.decls, Option.bind_some]
    cases RuleDecl.decode? text <;> rfl

/-- The rules of a source are processed by visiting them. -/
theorem processRules_eq {o : Options} (h : o.omits .lower = false) (ds : List RuleDecl) :
    processRules o ds = (ds.map rule).forM (process o) := by
  have hrule : processRule o = fun d => process o (rule d) := funext (processRule_eq o)
  rw [processRules, h, if_neg Bool.false_ne_true, List.forM_eq_forM, List.forM_eq_forM,
    List.forM_map, hrule]

end Visit

/-- The visits of a run. -/
def visits (o : Options) (sources : List Source) : List Visit :=
  if o.omits .lower then sources.map .source else sources.flatMap Source.visits

/-- A run makes its visits in order. -/
theorem run_eq_forM (o : Options) (sources : List Source) :
    run o sources = (visits o sources).forM (Visit.process o) := by
  rw [run, visits]
  induction sources with
  | nil => cases o.omits .lower <;> rfl
  | cons s rest ih =>
    rw [List.forM, Visit.processSource_eq, ih]
    cases h : o.omits .lower with
    | true =>
      simp only [processRules, h, if_true, bind_assoc, pure_bind, List.map_cons, List.forM]
    | false =>
      simp only [Visit.processRules_eq h, Bool.false_eq_true, if_false,
        List.flatMap_cons, Source.visits, List.forM_eq_forM, List.forM_append, List.cons_append,
        List.forM_cons, bind_assoc]

/-! ### What a run does -/

/-- The text that a process prints. -/
def printedText (p : Process Unit) : String := String.join (p.trace.filterMap Output.printed?)

/-- The reports on the rules that visits yield, one after the other. -/
def reportsText (graphs : Bool) (rs : List Rule) : String :=
  String.join (rs.map (Visit.reportText graphs))

namespace Visit

/-- What a visit prints is the report on the rule that it yields, unless printing is left out. -/
theorem printed_outputs (o : Options) (v : Visit) : (v.outputs o).filterMap Output.printed? =
    if o.omits .print then [] else v.rule?.toList.map (reportText o.graphs) := by
  cases v with
  | source s =>
    simp only [outputs, rule?]
    cases s.content.bind RuleDecl.decode? <;> cases o.omits .print <;> rfl
  | rule d =>
    simp only [outputs, rule?]
    cases d.lower <;> cases o.omits .print <;> rfl

/-- A visit that fails yields no rule. -/
theorem rule?_eq_none {v : Visit} (h : v.failure?.isSome) : v.rule? = none := by
  cases v with
  | source s => rfl
  | rule d =>
    simp only [failure?] at h
    simp only [rule?]
    cases hd : d.lower with
    | error e => rfl
    | ok r => simp [hd] at h

theorem result_process (o : Options) (v : Visit) : (v.process o).result = outcome v.failure? := rfl

/-- The rules that visits yield before the first failure. -/
def rulesBefore (vs : List Visit) : List Rule :=
  (vs.takeWhile fun v => v.failure?.isNone).filterMap rule?

/-- The visits that are made yield the rules before the first failure. -/
theorem flatMap_reached (vs : List Visit) :
    (reached failure? vs).flatMap (fun v => v.rule?.toList) = rulesBefore vs := by
  rw [rulesBefore, List.filterMap_eq_flatMap_toList, reached, List.flatMap_append]
  cases h : vs.find? fun v => v.failure?.isSome with
  | none => simp
  | some v =>
    have hfails : v.failure?.isSome = true :=
      List.find?_some (p := fun v : Visit => v.failure?.isSome) h
    simp [rule?_eq_none hfails]

/-- Visits print the reports on the rules before the first failure, unless printing is left out. -/
theorem printedText_forM (o : Options) (vs : List Visit) :
    printedText (vs.forM (process o)) =
      if o.omits .print then "" else reportsText o.graphs (rulesBefore vs) := by
  rw [printedText, Traced.trace_forM (result_process o), List.filterMap_flatMap]
  change String.join ((reached failure? vs).flatMap fun v =>
    (v.outputs o).filterMap Output.printed?) = _
  simp only [printed_outputs]
  cases o.omits .print with
  | true =>
    rw [List.flatMap_eq_nil_iff.mpr fun _ _ => if_pos rfl]
    rfl
  | false =>
    rw [reportsText, ← flatMap_reached, List.map_flatMap]
    rfl

/-- The rules of a source fail as lowering all of them does. -/
theorem findSome?_rules (ds : List RuleDecl) : outcome ((ds.map rule).findSome? failure?) =
    ((RuleDecl.lowerAll ds).mapError Failure.refused).map fun _ => () := by
  induction ds with
  | nil => rfl
  | cons d rest ih =>
    rw [RuleDecl.lowerAll, List.mapM_cons, List.map_cons, List.findSome?_cons]
    change _ =
      (((d.lower >>= fun r => RuleDecl.lowerAll rest >>= fun rs => .ok (r :: rs)).mapError _).map _)
    simp only [failure?]
    cases d.lower with
    | error e => rfl
    | ok r =>
      simp only [ih]
      cases RuleDecl.lowerAll rest <;> rfl

/-- If all rules of a source are lowered, these are the rules before the first failure. -/
theorem rulesBefore_rules {ds : List RuleDecl} {rs : List Rule}
    (h : RuleDecl.lowerAll ds = .ok rs) : rulesBefore (ds.map rule) = rs := by
  rw [RuleDecl.lowerAll, mapM_eq_ok_iff] at h
  induction h with
  | nil => rfl
  | @cons r d rs ds hd _ ih =>
    have hfailure : (rule d).failure? = none := by simp only [failure?, hd]
    have hrule : (rule d).rule? = some r := by simp only [rule?, hd, Except.toOption]
    rw [rulesBefore] at ih ⊢
    simp [hfailure, hrule, ih]

end Visit

open Visit (failure? rulesBefore)

/-- What a run with the options does to the sources: it makes its visits in order, up to the first
failure. -/
structure VisitsInOrder (o : Options) (sources : List Source) : Prop where
  /-- Each visit leaves its records and reports, and nothing is done after the first failure. -/
  trace : (run o sources).trace = (reached failure? (visits o sources)).flatMap (Visit.outputs o)
  /-- If nothing is left out, the result is the first failure to read a source or to lower one of
  its rules, and the reports on all rules lowered before it are printed. -/
  complete : o.omitFrom = none →
    (run o sources).result = outcome ((sources.flatMap Source.visits).findSome? failure?) ∧
    printedText (run o sources) = reportsText o.graphs (rulesBefore (sources.flatMap Source.visits))
  /-- If printing is left out, the result is the same, and nothing is printed. -/
  withoutPrint : o.omitFrom = some .print →
    (run o sources).result = outcome ((sources.flatMap Source.visits).findSome? failure?) ∧
    printedText (run o sources) = ""
  /-- If lowering is left out, the result is the first failure to read a source, and nothing is
  printed. -/
  withoutLower : o.omitFrom = some .lower →
    (run o sources).result = outcome ((sources.map Visit.source).findSome? failure?) ∧
    printedText (run o sources) = ""
  /-- The rules of one source fail as lowering all of them does, unless lowering is left out. -/
  rules : o.omitFrom ≠ some .lower → ∀ ds,
    (processRules o ds).result = ((RuleDecl.lowerAll ds).mapError Failure.refused).map fun _ => ()
  /-- If nothing is left out and all rules of one source are lowered, the reports on them are
  printed. -/
  reports : o.omitFrom = none → ∀ ds rs, RuleDecl.lowerAll ds = .ok rs →
    printedText (processRules o ds) = reportsText o.graphs rs

/-- Lowering is left out exactly if it is the first stage that is. -/
theorem omits_lower (o : Options) : o.omits .lower = decide (o.omitFrom = some .lower) := by
  rw [Options.omits]
  rcases o.omitFrom with - | - | - <;> simp [Stage.place]

/-- Printing is left out with every stage. -/
theorem omits_print (o : Options) : o.omits .print = o.omitFrom.isSome := by
  rw [Options.omits]
  rcases o.omitFrom with - | - | - <;> simp [Stage.place]

theorem result_run (o : Options) (sources : List Source) :
    (run o sources).result = outcome ((visits o sources).findSome? failure?) := by
  rw [run_eq_forM, Traced.result_forM (Visit.result_process o)]

theorem printedText_run (o : Options) (sources : List Source) : printedText (run o sources) =
    if o.omits .print then "" else reportsText o.graphs (rulesBefore (visits o sources)) := by
  rw [run_eq_forM, Visit.printedText_forM]

/-- **A run makes its visits in order and ends with the first failure**, and lowers the rules of a
source as `RuleDecl.lowerAll` does. -/
theorem run_visitsInOrder (o : Options) (sources : List Source) : VisitsInOrder o sources where
  trace := by
    rw [run_eq_forM, Traced.trace_forM (Visit.result_process o)]
    rfl
  complete h := by simp [result_run, printedText_run, visits, omits_lower, omits_print, h]
  withoutPrint h := by simp [result_run, printedText_run, visits, omits_lower, omits_print, h]
  withoutLower h := by simp [result_run, printedText_run, visits, omits_lower, omits_print, h]
  rules h ds := by
    have hlower : o.omits .lower = false := by simpa [omits_lower] using h
    rw [Visit.processRules_eq hlower, Traced.result_forM (Visit.result_process o),
      Visit.findSome?_rules]
  reports h ds rs hrs := by
    have hlower : o.omits .lower = false := by simp [omits_lower, h]
    have hprint : o.omits .print = false := by simp [omits_print, h]
    rw [Visit.processRules_eq hlower, Visit.printedText_forM, hprint, Visit.rulesBefore_rules hrs]
    rfl

end Command

end GraphTransform
