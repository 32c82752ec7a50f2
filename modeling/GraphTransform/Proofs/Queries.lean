import GraphTransform.Proofs.Violations

/-!
# Queries

An evaluation puts queries to a match one after the other, and stops early after an error or where
`and` and `or` are decided. What it asks is written in the condition: its queries are some of the
leaves of the condition, in their order (`trace_eval_sublist`), whatever the match answers.

A condition that the type check admits has no other leaves than questions about names of the
declaration (`RuleDecl.DeclaresQuery`). So a match is never asked about a variable that is not
declared, or about a node that it does not match (`declaresQuery_of_lower`).
-/

namespace GraphTransform

/-! ### Leaves -/

/-- The queries that are written in an atom, from left to right. -/
def Atom.leaves : Atom → List Query
  | .int _ => []
  | .str _ => []
  | .var x => [.binding x]
  | .degree direction n => [.degree direction n]
  | .length x => [.binding x]
  | .neg a => a.leaves
  | .arith _ a b => a.leaves ++ b.leaves
  | .concat a b => a.leaves ++ b.leaves

/-- The queries that are written in a condition, from left to right. The label of an edge is part of
the question. -/
def Condition.leaves : Condition → List Query
  | .is _ x => [.binding x]
  | .edge s t l => [.hasEdge s t l]
  | .eq l r => l.flatMap Atom.leaves ++ r.flatMap Atom.leaves
  | .neq l r => l.flatMap Atom.leaves ++ r.flatMap Atom.leaves
  | .cmp _ l r => l.leaves ++ r.leaves
  | .not c => c.leaves
  | .and c d => c.leaves ++ d.leaves
  | .or c d => c.leaves ++ d.leaves

namespace Traced

variable {ω ε α β : Type} {x : Traced ω ε α} {f : α → Traced ω ε β}

/-- A sequence leaves some events of its first part and then, if it goes on, some of the rest. -/
theorem trace_bind_sublist {es es' : List ω} (hx : x.trace.Sublist es)
    (hf : ∀ a, (f a).trace.Sublist es') : (x >>= f).trace.Sublist (es ++ es') := by
  cases h : x.result with
  | ok a =>
    rw [trace_bind_of_ok h]
    exact hx.append (hf a)
  | error e =>
    rw [trace_bind_of_error h]
    exact hx.trans (List.sublist_append_left ..)

/-- A first part without events adds none. -/
theorem trace_bind_sublist_of_nil {es : List ω} (hx : x.trace = [])
    (hf : ∀ a, (f a).trace.Sublist es) : (x >>= f).trace.Sublist es := by
  have hnil : x.trace.Sublist [] := hx ▸ .refl _
  exact trace_bind_sublist hnil hf

end Traced

section Leaves

variable (vs : Variables) (m : Match)

namespace Atom

/-- The queries of an atom are some of its leaves, in their order. -/
theorem trace_eval_sublist (a : Atom) : (a.eval vs m).trace.Sublist a.leaves := by
  induction a with
  | int i => exact .refl _
  | str s => exact .refl _
  | var x =>
    rw [eval, Traced.trace_bind_eq fun values => Traced.trace_liftM _]
    exact .refl _
  | degree direction n =>
    rw [eval, Traced.trace_bind_eq fun k => Traced.trace_pure _]
    exact .refl _
  | length x =>
    rw [eval, Traced.trace_bind_eq fun values => Traced.trace_bind_eq fun k => Traced.trace_pure _]
    exact .refl _
  | neg a ih =>
    rw [eval, Traced.trace_bind_eq fun v => Traced.trace_bind_eq fun i =>
      Traced.trace_bind_eq fun k => rfl]
    exact ih
  | arith op a b iha ihb =>
    rw [eval]
    refine Traced.trace_bind_sublist iha fun v => Traced.trace_bind_sublist_of_nil rfl fun i => ?_
    rw [Traced.trace_bind_eq fun w => Traced.trace_bind_eq fun j =>
      Traced.trace_bind_eq fun k => rfl]
    exact ihb
  | concat a b iha ihb =>
    rw [eval]
    refine Traced.trace_bind_sublist iha fun v => Traced.trace_bind_sublist_of_nil rfl fun s => ?_
    rw [Traced.trace_bind_eq fun w => Traced.trace_bind_eq fun t => Traced.trace_pure _]
    exact ihb

theorem trace_evalInteger_sublist (a : Atom) : (a.evalInteger vs m).trace.Sublist a.leaves := by
  rw [evalInteger, Traced.trace_bind_eq fun v => Traced.trace_liftM _]
  exact a.trace_eval_sublist vs m

theorem trace_evalElement_sublist (a : Atom) : (a.evalElement vs m).trace.Sublist a.leaves := by
  unfold evalElement
  split
  · exact .refl _
  · rw [Traced.trace_bind_eq fun v => Traced.trace_pure _]
    exact trace_eval_sublist ..

theorem trace_evalList_sublist (as : List Atom) :
    (evalList vs m as).trace.Sublist (as.flatMap leaves) := by
  induction as with
  | nil => exact .refl _
  | cons a rest ih =>
    rw [evalList, List.flatMap_cons]
    refine Traced.trace_bind_sublist (a.trace_evalElement_sublist vs m) fun values => ?_
    rw [Traced.trace_bind_eq fun others => Traced.trace_pure _]
    exact ih

end Atom

/-- **The queries of a condition are some of its leaves, in their order.** -/
theorem Condition.trace_eval_sublist (c : Condition) : (c.eval vs m).trace.Sublist c.leaves := by
  have hlists (l r : List Atom) (f : List Value → List Value → Bool) :
      (do let ls ← Atom.evalList vs m l
          let rs ← Atom.evalList vs m r
          return f ls rs : Evaluation Bool).trace.Sublist
              (l.flatMap Atom.leaves ++ r.flatMap Atom.leaves) := by
    refine Traced.trace_bind_sublist (Atom.trace_evalList_sublist vs m l) fun ls => ?_
    rw [Traced.trace_bind_eq fun rs => Traced.trace_pure _]
    exact Atom.trace_evalList_sublist vs m r
  induction c with
  | is test x =>
    rw [eval, Traced.trace_bind_eq fun values => Traced.trace_pure _]
    exact .refl _
  | edge s t l => exact .refl _
  | eq l r => exact hlists l r fun ls rs => ls = rs
  | neq l r => exact hlists l r fun ls rs => ls ≠ rs
  | cmp op l r =>
    rw [eval]
    refine Traced.trace_bind_sublist (l.trace_evalInteger_sublist vs m) fun i => ?_
    rw [Traced.trace_bind_eq fun j => Traced.trace_pure _]
    exact r.trace_evalInteger_sublist vs m
  | not c ih =>
    rw [eval, Traced.trace_bind_eq fun b => Traced.trace_pure _]
    exact ih
  | and c d ihc ihd =>
    rw [eval]
    refine Traced.trace_bind_sublist ihc fun b => ?_
    cases b with
    | true => exact ihd
    | false => exact List.nil_sublist _
  | or c d ihc ihd =>
    rw [eval]
    refine Traced.trace_bind_sublist ihc fun b => ?_
    cases b with
    | true => exact List.nil_sublist _
    | false => exact ihd

end Leaves

/-! ### Names of a declaration -/

namespace RuleDecl

variable (d : RuleDecl)

/-- Every variable in the atom is declared, and every node of whose degree it speaks is one of the
left side. -/
def DeclaresNames : Atom → Prop
  | .int _ => True
  | .str _ => True
  | .var x => x ∈ d.vars.map (·.name)
  | .degree _ n => n ∈ d.lhs.nodeIds
  | .length x => x ∈ d.vars.map (·.name)
  | .neg a => DeclaresNames a
  | .arith _ a b => DeclaresNames a ∧ DeclaresNames b
  | .concat a b => DeclaresNames a ∧ DeclaresNames b

/-- The query is about declared variables and about nodes of the left side only. -/
def DeclaresQuery : Query → Prop
  | .binding x => x ∈ d.vars.map (·.name)
  | .degree _ n => n ∈ d.lhs.nodeIds
  | .hasEdge s t l =>
    s ∈ d.lhs.nodeIds ∧ t ∈ d.lhs.nodeIds ∧ ∀ label ∈ l, ∀ a ∈ label.list, d.DeclaresNames a

variable {d}

/-- A well-typed atom mentions declared names only. -/
theorem HasType.declaresNames {a : Atom} {t : ValueType} (h : d.HasType a t) :
    d.DeclaresNames a := by
  induction h with
  | int => trivial
  | character => trivial
  | string => trivial
  | var hx => exact List.mem_map_of_mem hx
  | degree _ hn => exact hn
  | length hx => exact List.mem_map_of_mem hx
  | neg _ ih => exact ih
  | arith _ _ _ iha ihb => exact ⟨iha, ihb⟩
  | concat _ _ _ _ iha ihb => exact ⟨iha, ihb⟩

/-- The leaves of an atom ask about the names that it mentions. -/
theorem DeclaresNames.leaves {a : Atom} (h : d.DeclaresNames a) :
    ∀ q ∈ a.leaves, d.DeclaresQuery q := by
  induction a with
  | int => exact List.forall_mem_nil _
  | str => exact List.forall_mem_nil _
  | var x => exact List.forall_mem_singleton.mpr h
  | degree direction n => exact List.forall_mem_singleton.mpr h
  | length x => exact List.forall_mem_singleton.mpr h
  | neg a ih => exact ih h
  | arith op a b iha ihb => exact List.forall_mem_append.mpr ⟨iha h.1, ihb h.2⟩
  | concat a b iha ihb => exact List.forall_mem_append.mpr ⟨iha h.1, ihb h.2⟩

theorem HasType.declaresQuery {a : Atom} {t : ValueType} (h : d.HasType a t) :
    ∀ q ∈ a.leaves, d.DeclaresQuery q :=
  h.declaresNames.leaves

theorem Comparable.declaresQuery {l r : List Atom} (h : d.Comparable l r) :
    ∀ q ∈ l.flatMap Atom.leaves ++ r.flatMap Atom.leaves, d.DeclaresQuery q := by
  rw [← List.flatMap_append]
  intro q hq
  obtain ⟨a, ha, hq⟩ := List.mem_flatMap.mp hq
  obtain ⟨t, ht⟩ := h.typed a ha
  exact ht.declaresQuery q hq

/-- **The leaves of a well-typed condition ask about names of the declaration only.** -/
theorem TypedCondition.declaresQuery {c : Condition} (h : d.TypedCondition c) :
    ∀ q ∈ c.leaves, d.DeclaresQuery q := by
  induction c with
  | is test x =>
    obtain ⟨t, hx, -⟩ := h
    exact List.forall_mem_singleton.mpr (List.mem_map_of_mem hx)
  | edge s t l =>
    obtain ⟨hs, ht, hl⟩ := h
    refine List.forall_mem_singleton.mpr ⟨hs, ht, fun label hlabel a ha => ?_⟩
    obtain ⟨u, hu⟩ := hl label hlabel a ha
    exact hu.declaresNames
  | eq l r => exact Comparable.declaresQuery h
  | neq l r => exact Comparable.declaresQuery h
  | cmp op l r => exact List.forall_mem_append.mpr ⟨h.1.declaresQuery, h.2.declaresQuery⟩
  | not c ih => exact ih h
  | and c c' ih ih' => exact List.forall_mem_append.mpr ⟨ih h.1, ih' h.2⟩
  | or c c' ih ih' => exact List.forall_mem_append.mpr ⟨ih h.1, ih' h.2⟩

end RuleDecl

/-- **Every query about a candidate match is about names of the declaration**, whatever the match
answers. -/
theorem declaresQuery_of_lower {d : RuleDecl} {r : Rule} (h : d.lower = .ok r) (m : Match) :
    ∀ q ∈ (r.evalCondition m).trace, d.DeclaresQuery q := by
  intro q hq
  have hacceptable := RuleDecl.exists_lower_iff.mp ⟨r, h⟩
  obtain ⟨s, -, δ, -, -, rfl⟩ := RuleDecl.lower_eq_ok_iff.mp h
  unfold Rule.evalCondition at hq
  cases hc : d.condition with
  | none =>
    simp only [hc] at hq
    cases hq
  | some c =>
    simp only [hc] at hq
    exact (hacceptable.condition c hc).declaresQuery q ((c.trace_eval_sublist _ m).subset hq)

/-- The label that `labelledEdge` asks for. -/
def countedLabel : Label := ⟨.any, [.var "x", .arith .sub (.length "l") (.degree .incoming "b")]⟩

/-- A rule that asks for an edge with a label, but only where a node has edges. -/
def labelledEdge : RuleDecl where
  name := "labelled"
  vars := [⟨"x", .integer⟩, ⟨"l", .list⟩]
  lhs := { nodes := [{ id := "a" }, { id := "b" }] }
  rhs := { nodes := [{ id := "b" }, { id := "c" }] }
  condition := some (.and
    (.cmp .greater (.degree .outgoing "a") (.int 0))
    (.or (.edge "a" "b" (some countedLabel)) (.eq [.var "l"] [.neg (.var "x")])))

/-- A match that binds no variable. -/
def unboundMatch : Match where
  binding _ := none
  degree _ _ := some 1
  hasEdge _ _ _ := false

/-- The rule that asks for a labelled edge is an instance, in a match under which its condition
fails. -/
theorem declaresQuery_labelledEdge : ∃ r, labelledEdge.lower = .ok r ∧
    (r.evalCondition unboundMatch).result = .error (.unbound "l") ∧
    .hasEdge "a" "b" (some countedLabel) ∈ (r.evalCondition unboundMatch).trace ∧
    labelledEdge.DeclaresQuery (.hasEdge "a" "b" (some countedLabel)) := by
  refine ⟨_, rfl, rfl, ?_, declaresQuery_of_lower rfl unboundMatch _ ?_⟩
  · exact List.mem_of_getElem? (i := 1) rfl
  · exact List.mem_of_getElem? (i := 1) rfl

end GraphTransform
