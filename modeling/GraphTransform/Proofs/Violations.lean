import GraphTransform.Proofs.Lowered
import GraphTransform.Proofs.TypingRules

/-!
# What is wrong with a declaration

A declaration is acceptable (`RuleDecl.Acceptable`) if its names are distinct, its edges end in
nodes of their side, and its labels and its condition are well-typed. `RuleDecl.violations` lists
what is wrong with it otherwise: everything, in the order of the parts of the declaration, whether
or not something else is wrong before.

Exactly the acceptable declarations lower to a rule, and any other fails with the first of its
violations (`lower_iff_acceptable`). Each step of lowering is matched with the violations that it
looks for (`Reports`); the comparison of both sides, which has errors of its own, looks for none.
-/

namespace GraphTransform

open Correspondence (Table nodeEntries)

/-! ### Acceptable declarations -/

/-- The ends of the edges of a side are nodes of the side. -/
def GraphDecl.Connected (g : GraphDecl) : Prop :=
  ∀ e ∈ g.edges, e.source ∈ g.nodeIds ∧ e.target ∈ g.nodeIds

/-- The labels of a rule: those of the nodes of the left and of the right side, and then those of
the edges. -/
def RuleDecl.labels (d : RuleDecl) : List Label :=
  d.lhs.nodes.map (·.label) ++ d.rhs.nodes.map (·.label) ++ d.lhs.edges.map (·.label) ++
    d.rhs.edges.map (·.label)

/-- Nothing is wrong with the declaration. -/
structure RuleDecl.Acceptable (d : RuleDecl) : Prop where
  /-- The names of the variables are distinct. -/
  vars : (d.vars.map (·.name)).Nodup
  /-- The identifiers of the left nodes are distinct. -/
  leftIds : d.lhs.nodeIds.Nodup
  /-- The identifiers that left edges carry are distinct. -/
  leftEdgeIds : d.lhs.edgeIds.Nodup
  /-- The identifiers of the right nodes are distinct. -/
  rightIds : d.rhs.nodeIds.Nodup
  /-- The identifiers that right edges carry are distinct. -/
  rightEdgeIds : d.rhs.edgeIds.Nodup
  /-- The ends of left edges are left nodes. -/
  leftEnds : d.lhs.Connected
  /-- The ends of right edges are right nodes. -/
  rightEnds : d.rhs.Connected
  /-- Every atom of a label has a type. -/
  labels : ∀ l ∈ d.labels, d.TypedLabel l
  /-- The condition is well-typed. -/
  condition : ∀ c ∈ d.condition, d.TypedCondition c

/-- Both declarations have the same entries in each list, in any order. -/
structure RuleDecl.SameEntries (d d' : RuleDecl) : Prop where
  /-- The variables. -/
  vars : d'.vars.Perm d.vars
  /-- The left nodes. -/
  leftNodes : d'.lhs.nodes.Perm d.lhs.nodes
  /-- The left edges. -/
  leftEdges : d'.lhs.edges.Perm d.lhs.edges
  /-- The right nodes. -/
  rightNodes : d'.rhs.nodes.Perm d.rhs.nodes
  /-- The right edges. -/
  rightEdges : d'.rhs.edges.Perm d.rhs.edges
  /-- The condition. -/
  condition : d'.condition = d.condition

/-! ### Violations -/

/-- The entries of a list that occur before in it, in order. -/
def repeats (xs : List String) : List String :=
  (List.range xs.length).filterMap fun k => xs[k]?.filter (· ∈ xs.take k)

/-- The identifiers that occur twice on a side: of nodes, and then of edges. -/
def GraphDecl.idViolations (g : GraphDecl) : List DeclError :=
  (repeats g.nodeIds).map .duplicateItem ++ (repeats g.edgeIds).map .duplicateItem

/-- The type that something is found to have does not meet a test. -/
def typeViolation (item : String) (expected : ValueType) (test : ValueType → Bool) :
    Option ValueType → List DeclError
  | some t => if test t then [] else [.typeMismatch item expected t]
  | none => []

namespace RuleDecl

variable (d : RuleDecl)

/-- The declared type of a variable. -/
def typeOf? (x : String) : Option ValueType := (d.vars.find? (·.name = x)).map (·.type)

/-- The variable is not declared. -/
def variableViolation (x : String) : List DeclError :=
  if d.typeOf? x = none then [.undeclaredVariable x] else []

/-- The node is not one of the left side. -/
def leftNodeViolation (n : String) : List DeclError :=
  if n ∈ d.lhs.nodeIds then [] else [.unknownItem n]

/-- The end of a right edge is not a node of the right side. -/
def rightEndViolation (e : EdgeDecl) (n : String) : List DeclError :=
  if n ∈ d.rhs.nodeIds then []
  else if n ∈ d.lhs.nodeIds then [.danglingEdge e.name n]
  else [.unknownItem n]

/-- The type of an atom by its form, whatever its parts are. -/
def formType? : Atom → Option ValueType
  | .str s => some (if s.length = 1 then .character else .string)
  | .var x => d.typeOf? x
  | .concat _ _ => some .string
  | _ => some .integer

/-- The atom is an operand of another type. -/
def operandViolation (expected : ValueType) (a : Atom) : List DeclError :=
  typeViolation a.text expected expected.holds (d.formType? a)

/-- What is wrong with an atom. -/
def atomViolations : Atom → List DeclError
  | .int _ => []
  | .str _ => []
  | .var x => d.variableViolation x
  | .degree _ n => d.leftNodeViolation n
  | .length x =>
    d.variableViolation x ++ typeViolation x .list (fun t => decide t.HasLength) (d.typeOf? x)
  | .neg a => atomViolations a ++ d.operandViolation .integer a
  | .arith _ a b =>
    atomViolations a ++ d.operandViolation .integer a ++
      (atomViolations b ++ d.operandViolation .integer b)
  | .concat a b =>
    atomViolations a ++ d.operandViolation .string a ++
      (atomViolations b ++ d.operandViolation .string b)

/-- What is wrong with a label. -/
def labelViolations (l : Label) : List DeclError := l.list.flatMap d.atomViolations

/-- What is wrong with an atom as an element of a list that is compared, if it is a variable. -/
def elementViolations : Atom → List DeclError
  | .var x => d.variableViolation x ++ typeViolation x .list (· ≠ .integer) (d.typeOf? x)
  | _ => []

/-- Elements at the same position have types without a common value. -/
def overlapViolations (p : Atom × Atom) : List DeclError :=
  match d.formType? p.2 with
  | some u => typeViolation p.1.text u (·.overlaps u) (d.formType? p.1)
  | none => []

/-- What is wrong with a comparison of lists. Types of elements are only compared if no element is a
list and both lists are equally long. -/
def comparisonViolations (l r : List Atom) : List DeclError :=
  (l ++ r).flatMap d.elementViolations ++ (l ++ r).flatMap d.atomViolations ++
    if (∀ a ∈ l ++ r, d.formType? a ≠ some .list) ∧ l.length = r.length then
      (l.zip r).flatMap d.overlapViolations
    else []

/-- What is wrong with a condition. -/
def conditionViolations : Condition → List DeclError
  | .is test x =>
    d.variableViolation x ++ typeViolation x test.type (·.holds test.type) (d.typeOf? x)
  | .edge s t l =>
    d.leftNodeViolation s ++ d.leftNodeViolation t ++ l.toList.flatMap d.labelViolations
  | .eq l r => d.comparisonViolations l r
  | .neq l r => d.comparisonViolations l r
  | .cmp _ l r =>
    d.atomViolations l ++ d.operandViolation .integer l ++
      (d.atomViolations r ++ d.operandViolation .integer r)
  | .not c => conditionViolations c
  | .and c c' => conditionViolations c ++ conditionViolations c'
  | .or c c' => conditionViolations c ++ conditionViolations c'

/-- What is wrong with the sides: variables, identifiers, ends of edges and labels. -/
def sideViolations : List DeclError :=
  (repeats (d.vars.map (·.name))).map .duplicateVariable ++ d.lhs.idViolations ++
    d.rhs.idViolations ++
    d.lhs.edges.flatMap (fun e => d.leftNodeViolation e.source ++ d.leftNodeViolation e.target) ++
    d.rhs.edges.flatMap (fun e => d.rightEndViolation e e.source ++
      d.rightEndViolation e e.target) ++
    d.labels.flatMap d.labelViolations

/-- **Everything that is wrong with a declaration**, in order. -/
def violations : List DeclError :=
  d.sideViolations ++ d.condition.toList.flatMap d.conditionViolations

end RuleDecl

/-! ### Names that occur twice -/

theorem repeats_append_singleton (xs : List String) (x : String) :
    repeats (xs ++ [x]) = repeats xs ++ if x ∈ xs then [x] else [] := by
  have hold : (List.range xs.length).filterMap
      (fun k => (xs ++ [x])[k]?.filter (· ∈ (xs ++ [x]).take k)) = repeats xs := by
    refine List.filterMap_congr fun k hk => ?_
    have hlt := List.mem_range.mp hk
    rw [List.getElem?_append_left hlt, List.take_append_of_le_length hlt.le]
  rw [repeats, List.length_append, List.length_singleton, List.range_succ,
    List.filterMap_append, hold]
  congr 1
  by_cases hx : x ∈ xs <;> simp [hx, Option.filter]

/-- Nothing is repeated exactly if the entries are distinct. -/
theorem repeats_eq_nil_iff {xs : List String} : repeats xs = [] ↔ xs.Nodup := by
  induction xs using List.reverseRecOn with
  | nil => simp [repeats]
  | append_singleton xs x ih =>
    rw [repeats_append_singleton, List.append_eq_nil_iff, ih, List.nodup_append_comm,
      List.singleton_append, List.nodup_cons, and_comm]
    by_cases hx : x ∈ xs <;> simp [hx]

theorem distinctIds_append_singleton (seen ids : List String) (id : String) :
    distinctIds seen (ids ++ [id]) =
      distinctIds seen ids >>= fun _ =>
        if id ∈ seen ∨ id ∈ ids then .error (.duplicateItem id) else .ok () := by
  induction ids generalizing seen with
  | nil => simp [distinctIds, bind, Except.bind]
  | cons head rest ih =>
    rw [List.cons_append, distinctIds, distinctIds]
    by_cases h : head ∈ seen
    · simp [h, bind, Except.bind]
    · rw [if_neg h, if_neg h, ih]
      congr 1
      funext _
      simp only [List.mem_cons]
      congr 1
      grind

theorem reports_distinctIds (ids : List String) :
    Reports ((repeats ids).map .duplicateItem) (distinctIds [] ids) := by
  induction ids using List.reverseRecOn with
  | nil => exact .ok
  | append_singleton ids id ih =>
    rw [repeats_append_singleton, distinctIds_append_singleton, List.map_append]
    refine ih.bind fun _ _ => ?_
    by_cases h : id ∈ ids
    · simpa [h] using .error
    · simpa [h] using .ok

theorem reports_checkIds (g : GraphDecl) : Reports g.idViolations g.checkIds :=
  (reports_distinctIds g.nodeIds).bind fun _ _ => reports_distinctIds g.edgeIds

theorem Variables.reports_declareAll (ds : List Variable) :
    Reports ((repeats (ds.map (·.name))).map .duplicateVariable) (empty.declareAll ds) := by
  induction ds using List.reverseRecOn with
  | nil => exact .ok
  | append_singleton ds v ih =>
    rw [declareAll, List.foldlM_append, List.map_append, List.map_singleton,
      repeats_append_singleton, List.map_append]
    refine ih.bind fun vs hvs => ?_
    have hholds := holds_empty.declareAll hvs
    rw [List.nil_append] at hholds
    rw [List.foldlM_cons]
    simp only [List.foldlM_nil, bind_pure]
    by_cases h : v.name ∈ ds.map (·.name)
    · rw [if_pos h, hholds.declare_eq_error h]
      exact .error
    · obtain ⟨vs', hok⟩ := hholds.exists_declare h
      rw [if_neg h, hok]
      exact .ok

/-! ### Types -/

theorem reports_typeViolation (item : String) (expected t : ValueType) (test : ValueType → Bool) :
    Reports (typeViolation item expected test (some t))
      (if test t = true then .ok () else .error (.typeMismatch item expected t)) := by
  rw [typeViolation]
  cases test t
  · exact .error
  · exact .ok

namespace Scope

section Atoms

variable {Γ : Scope} {d : RuleDecl} (hΓ : Γ.Of d)

include hΓ

theorem typeOf?_eq (x : String) : d.typeOf? x = Γ.vars.type? x := by
  refine Option.ext fun t => ?_
  rw [hΓ.vars, RuleDecl.typeOf?, Option.map_eq_some_iff]
  constructor
  · rintro ⟨v, hv, rfl⟩
    have hname : v.name = x := by simpa using List.find?_some hv
    exact hname ▸ List.mem_of_find?_eq_some hv
  · intro hmem
    -- another declaration of the name would give it another type
    cases hfind : d.vars.find? (·.name = x) with
    | none => simpa using List.find?_eq_none.mp hfind _ hmem
    | some v =>
      have hname : v.name = x := by simpa using List.find?_some hfind
      have hv : (⟨x, v.type⟩ : Variable) ∈ d.vars := hname ▸ List.mem_of_find?_eq_some hfind
      rw [← hΓ.vars] at hv hmem
      exact ⟨v, rfl, Option.some.inj (hv.symm.trans hmem)⟩

/-- The type that an atom has by its form is the one that it has, if it has any. -/
theorem formType?_of_infer {a : Atom} {t : ValueType} (h : Γ.infer a = .ok t) :
    d.formType? a = some t := by
  cases (infer_eq_ok_iff hΓ).mp h with
  | character hs => simp [RuleDecl.formType?, hs]
  | string hs => simp [RuleDecl.formType?, hs]
  | var hx => rwa [RuleDecl.formType?, typeOf?_eq hΓ, hΓ.vars]
  | _ => rfl

theorem reports_typeOf (x : String) : Reports (d.variableViolation x) (Γ.typeOf x) := by
  rw [RuleDecl.variableViolation, typeOf?_eq hΓ, typeOf]
  cases Γ.vars.type? x
  · exact .error
  · exact .ok

theorem reports_requireLeftNode (n : String) :
    Reports (d.leftNodeViolation n) (Γ.requireLeftNode n) := by
  simp only [RuleDecl.leftNodeViolation, ← hΓ.nodes, requireLeftNode]
  cases Γ.isLeftNode n
  · exact .error
  · exact .ok

theorem reports_requireInteger {a : Atom} {t : ValueType} (h : Γ.infer a = .ok t) :
    Reports (d.operandViolation .integer a) (requireInteger a t) := by
  have htest : (t = .integer) = (ValueType.integer.holds t = true) := by
    cases t <;> simp [ValueType.holds]
  rw [RuleDecl.operandViolation, formType?_of_infer hΓ h, requireInteger]
  simp only [htest]
  exact reports_typeViolation ..

theorem reports_requireString {a : Atom} {t : ValueType} (h : Γ.infer a = .ok t) :
    Reports (d.operandViolation .string a) (requireString a t) := by
  rw [RuleDecl.operandViolation, formType?_of_infer hΓ h, requireString]
  exact reports_typeViolation ..

/-- **Inferring the type of an atom reports what is wrong with it.** -/
theorem reports_infer (a : Atom) : Reports (d.atomViolations a) (Γ.infer a) := by
  induction a with
  | int n => exact .ok
  | str s => exact .ok
  | var x => exact reports_typeOf hΓ x
  | degree direction n => exact (reports_requireLeftNode hΓ n).bind_right fun _ _ => .ok
  | length x =>
    refine (reports_typeOf hΓ x).bind fun t ht => ?_
    rw [typeOf?_eq hΓ, typeOf_eq_ok_iff.mp ht]
    have hcheck : requireLength x t =
        if decide t.HasLength = true then .ok () else .error (.typeMismatch x .list t) := by
      cases t <;> rfl
    refine Reports.bind_right ?_ fun _ _ => .ok
    rw [hcheck]
    exact reports_typeViolation x .list t fun t => decide t.HasLength
  | neg a ih => exact ih.bind fun t ht => (reports_requireInteger hΓ ht).bind_right fun _ _ => .ok
  | arith op a b iha ihb =>
    rw [RuleDecl.atomViolations, List.append_assoc]
    refine iha.bind fun t ht => (reports_requireInteger hΓ ht).bind fun _ _ => ?_
    exact ihb.bind fun u hu => (reports_requireInteger hΓ hu).bind_right fun _ _ => .ok
  | concat a b iha ihb =>
    rw [RuleDecl.atomViolations, List.append_assoc]
    refine iha.bind fun t ht => (reports_requireString hΓ ht).bind fun _ _ => ?_
    exact ihb.bind fun u hu => (reports_requireString hΓ hu).bind_right fun _ _ => .ok

theorem reports_checkInteger (a : Atom) :
    Reports (d.atomViolations a ++ d.operandViolation .integer a) (Γ.checkInteger a) :=
  (reports_infer hΓ a).bind fun _ ht => reports_requireInteger hΓ ht

theorem reports_checkLabel (l : Label) : Reports (d.labelViolations l) (Γ.checkLabel l) :=
  .forM fun a _ => (reports_infer hΓ a).bind_right fun _ _ => .ok

theorem reports_checkLabels (labels : List Label) :
    Reports (labels.flatMap d.labelViolations) (Γ.checkLabels labels) :=
  .forM fun l _ => reports_checkLabel hΓ l

/-! ### Conditions -/

theorem reports_checkHolds (x : String) (t : ValueType) :
    Reports (d.variableViolation x ++ typeViolation x t (·.holds t) (d.typeOf? x))
      (Γ.checkHolds x t) := by
  refine (reports_typeOf hΓ x).bind fun u hu => ?_
  rw [typeOf?_eq hΓ, typeOf_eq_ok_iff.mp hu]
  exact reports_typeViolation x t u (·.holds t)

theorem reports_checkElement (a : Atom) : Reports (d.elementViolations a) (Γ.checkElement a) := by
  cases a with
  | var x =>
    refine (reports_typeOf hΓ x).bind fun t ht => ?_
    rw [typeOf?_eq hΓ, typeOf_eq_ok_iff.mp ht]
    by_cases h : t = .integer
    · simpa [typeViolation, h] using .error
    · simpa [typeViolation, h] using .ok
  | _ => exact .ok

theorem reports_checkOverlaps {l r : List Atom} {ts us : List ValueType}
    (hl : List.Forall₂ (fun t a => Γ.infer a = .ok t) ts l)
    (hr : List.Forall₂ (fun u b => Γ.infer b = .ok u) us r) :
    Reports ((l.zip r).flatMap d.overlapViolations) (checkOverlaps l ts us) := by
  induction hl generalizing us r with
  | nil => exact .ok
  | @cons t a ts l ha _ ih =>
    cases hr with
    | nil => exact .ok
    | @cons u b us r hb hr =>
      rw [List.zip_cons_cons, List.flatMap_cons, checkOverlaps, RuleDecl.overlapViolations,
        formType?_of_infer hΓ ha, formType?_of_infer hΓ hb]
      cases h : t.overlaps u
      · simpa [typeViolation, h] using .error
      · simpa [typeViolation, h] using ih hr

/-- The types of the elements of a list are those that they have by their form. -/
theorem list_mem_types_iff {ts : List ValueType} {as : List Atom}
    (h : List.Forall₂ (fun t a => Γ.infer a = .ok t) ts as) :
    .list ∈ ts ↔ ∃ a ∈ as, d.formType? a = some .list := by
  induction h with
  | nil => simp
  | cons ha _ ih =>
    rw [List.mem_cons, List.exists_mem_cons_iff, ih, formType?_of_infer hΓ ha,
      Option.some.injEq, eq_comm]

theorem reports_checkComparable (l r : List Atom) :
    Reports (d.comparisonViolations l r) (Γ.checkComparable l r) := by
  rw [RuleDecl.comparisonViolations, List.flatMap_append (f := d.atomViolations), List.append_assoc,
    List.append_assoc]
  refine (Reports.forM fun a _ => reports_checkElement hΓ a).bind fun _ _ => ?_
  refine (Reports.mapM fun a _ => reports_infer hΓ a).bind fun ts hl => ?_
  refine (Reports.mapM fun b _ => reports_infer hΓ b).bind fun us hr => ?_
  rw [mapM_eq_ok_iff] at hl hr
  have hopen : (.list ∈ ts ∨ .list ∈ us ∨ ts.length ≠ us.length) ↔
      ¬ ((∀ a ∈ l ++ r, d.formType? a ≠ some .list) ∧ l.length = r.length) := by
    rw [list_mem_types_iff hΓ hl, list_mem_types_iff hΓ hr, hl.length_eq, hr.length_eq]
    simp only [List.mem_append, or_imp, forall_and]
    grind
  split
  · next hclosed =>
    rw [if_neg (by rwa [hopen, not_not])]
    exact reports_checkOverlaps hΓ hl hr
  · next h =>
    rw [if_pos (hopen.mpr h)]
    exact .ok

/-- **Checking a condition reports what is wrong with it.** -/
theorem reports_checkCondition (c : Condition) :
    Reports (d.conditionViolations c) (Γ.checkCondition c) := by
  induction c with
  | is test x => exact reports_checkHolds hΓ x test.type
  | edge s t l =>
    rw [RuleDecl.conditionViolations, List.append_assoc]
    refine (reports_requireLeftNode hΓ s).bind fun _ _ =>
      (reports_requireLeftNode hΓ t).bind fun _ _ => ?_
    cases l with
    | none => exact .ok
    | some l => simpa using reports_checkLabel hΓ l
  | eq l r => exact reports_checkComparable hΓ l r
  | neq l r => exact reports_checkComparable hΓ l r
  | cmp op l r => exact (reports_checkInteger hΓ l).bind fun _ _ => reports_checkInteger hΓ r
  | not c ih => exact ih
  | and c c' ih ih' => exact ih.bind fun _ _ => ih'
  | or c c' ih ih' => exact ih.bind fun _ _ => ih'

end Atoms

end Scope

/-! ### Lowering -/

namespace Lowering

/-- The end of a left edge is looked up in the table of the left nodes. -/
theorem reports_leftEnd {d : RuleDecl} {t : Table} (h : t.Holds (nodeEntries d.lhs.nodeIds []))
    (e : EdgeDecl) (n : String) : Reports (d.leftNodeViolation n) (endIndex t .left e n) := by
  rw [endIndex_eq h, RuleDecl.leftNodeViolation, Correspondence.sideIds]
  by_cases hn : n ∈ d.lhs.nodeIds
  · obtain ⟨i, hi⟩ := Option.isSome_iff_exists.mp (List.isSome_idxOf?.mpr hn)
    rw [if_pos hn, hi]
    exact .ok
  · rw [if_neg hn, List.idxOf?_eq_none_iff.mpr hn]
    simpa [hn] using .error

/-- The end of a right edge is looked up in the table of the nodes of both sides. -/
theorem reports_rightEnd {d : RuleDecl} {t : Table} (h : t.Holds d.nodeEntries) (e : EdgeDecl)
    (n : String) : Reports (d.rightEndViolation e n) (endIndex t .right e n) := by
  rw [endIndex_eq h, RuleDecl.rightEndViolation, Correspondence.sideIds]
  by_cases hn : n ∈ d.rhs.nodeIds
  · obtain ⟨i, hi⟩ := Option.isSome_iff_exists.mp (List.isSome_idxOf?.mpr hn)
    rw [if_pos hn, hi]
    exact .ok
  · rw [if_neg hn, List.idxOf?_eq_none_iff.mpr hn]
    by_cases hl : n ∈ d.lhs.nodeIds
    · simpa [hn, hl] using .error
    · simpa [hn, hl] using .error

/-- Edges are added one after the other, the source of each before its target. -/
theorem reports_withEdges {t : Table} {side : Side} {findings : EdgeDecl → String → List DeclError}
    (h : ∀ e n, Reports (findings e n) (endIndex t side e n)) (G : Graph) (es : List EdgeDecl) :
    Reports (es.flatMap fun e => findings e e.source ++ findings e e.target)
      (withEdges t side G es) := by
  induction es generalizing G with
  | nil => exact .ok
  | cons e es ih =>
    rw [List.flatMap_cons, List.append_assoc, withEdges_cons]
    refine (h e e.source).bind fun source _ => (h e e.target).bind fun target _ => ?_
    exact ih _

/-- The labels of graphs that realize the sides are those of the declaration. -/
theorem labels_eq {d : RuleDecl} {s : Sides} (hl : s.lhs.Realizes d.lhs)
    (hr : s.rhs.Realizes d.rhs) : s.labels = d.labels := by
  have hnodes {G : Graph} {g : GraphDecl} (h : G.Realizes g) :
      G.nodes.toList.map (·.label) = g.nodes.map (·.label) := by
    refine List.ext_getElem? fun i => ?_
    rw [List.getElem?_map, List.getElem?_map, Array.getElem?_toList]
    exact h.nodeLabel? i
  have hedges {G : Graph} {g : GraphDecl} (h : G.Realizes g) :
      G.edges.toList.map (·.label) = g.edges.map (·.label) := by
    refine List.ext_getElem? fun k => ?_
    rw [List.getElem?_map, List.getElem?_map, Array.getElem?_toList]
    exact h.edgeLabel? k
  rw [Sides.labels, RuleDecl.labels, hnodes hl, hnodes hr, hedges hl, hedges hr]

/-- **Building the sides reports what is wrong with them.** -/
theorem reports_sides (d : RuleDecl) : Reports d.sideViolations (sides d).result := by
  simp only [sides, sidesBy, Traced.result_bind, Traced.result_liftM, Traced.result_pure,
    Recorder.result_note, result_withEdgesBy]
  simp only [RuleDecl.sideViolations, List.append_assoc]
  refine (Variables.reports_declareAll d.vars).bind fun vars hvars => ?_
  refine Reports.ok_bind ?_
  refine (reports_checkIds d.lhs).bind fun _ hleft =>
    (reports_checkIds d.rhs).bind fun _ hright => ?_
  rw [checkIds_eq_ok_iff] at hleft hright
  have hleftNodes : (leftNodes d.lhs.nodes.zipIdx).Holds (nodeEntries d.lhs.nodeIds []) :=
    leftNodes_holds hleft.1
  have hnodes : (addRightNodes (leftNodes d.lhs.nodes.zipIdx) d.rhs.nodes.zipIdx).Holds
      d.nodeEntries :=
    nodes_holds hleft.1 hright.1
  refine (reports_withEdges (reports_leftEnd hleftNodes) _ _).bind fun lhs hlhs => ?_
  refine Reports.ok_bind ?_
  refine (reports_withEdges (reports_rightEnd hnodes) _ _).bind fun rhs hrhs => ?_
  refine Reports.ok_bind ?_
  refine Reports.bind_right ?_ fun _ _ => .ok
  rw [labels_eq (realizes_of_withEdges hleftNodes rfl hlhs) (realizes_of_withEdges hnodes rfl hrhs)]
  refine Scope.reports_checkLabels (scope_of ?_ hnodes) _
  exact Variables.holds_empty.declareAll hvars

/-- The ends of the edges of a side that a graph realizes are nodes of the side. -/
theorem connected_of_realizes {G : Graph} {g : GraphDecl} (h : G.Realizes g) : g.Connected := by
  intro e he
  obtain ⟨k, hk⟩ := List.mem_iff_getElem?.mp he
  obtain ⟨E, -, hE⟩ := h.exists_edge hk
  rw [← List.isSome_idxOf?, ← List.isSome_idxOf?, hE.source, hE.target]
  exact ⟨rfl, rfl⟩

/-- **Comparing both sides never fails** once they are built. -/
theorem exists_delta {d : RuleDecl} {s : Sides} (h : Built d s) :
    ∃ δ, (delta d s).result = .ok δ := by
  obtain ⟨⟨preserved, added, remaining⟩, hedges⟩ :=
    Delta.exists_ofEdges s.lhs s.rhs h.leftEdges.remains h.nodes (connected_of_realizes h.rhs)
  exact ⟨_, delta_eq_ok_iff.mpr ⟨preserved, added, remaining, hedges, rfl⟩⟩

theorem reports_condition {d : RuleDecl} {Γ : Scope} (hΓ : Γ.Of d) (c : Option Condition) :
    Reports (c.toList.flatMap d.conditionViolations) (checkCondition Γ c).result := by
  cases c with
  | none => exact .ok
  | some c =>
    rw [checkCondition, Traced.result_bind, Option.toList_some, List.flatMap_singleton]
    exact (Scope.reports_checkCondition hΓ c).bind_right fun _ _ => .ok

theorem reports_steps (d : RuleDecl) : Reports d.violations (steps d).result := by
  simp only [steps, stepsBy, Traced.result_bind, Traced.result_pure, Recorder.result_note,
    Recorder.relay_log, result_sidesBy, RuleDecl.violations]
  refine Reports.ok_bind ?_
  refine (reports_sides d).bind fun s hs => ?_
  have hbuilt := built_of_sides hs
  obtain ⟨δ, hδ⟩ := exists_delta hbuilt
  refine (Reports.of_ok hδ).bind fun δ _ => ?_
  exact (reports_condition hbuilt.scope_of d.condition).bind_right fun _ _ => .ok

end Lowering

namespace RuleDecl

/-- A declaration lowers to a rule exactly if it has no violations. -/
theorem exists_lower_iff_violations {d : RuleDecl} :
    (∃ r, d.lower = .ok r) ↔ d.violations = [] := by
  simp only [lower, lowerTraced, Traced.result_onError_eq_ok_iff]
  exact (Lowering.reports_steps d).exists_ok_iff

/-- Lowering fails exactly with the first violation. -/
theorem lower_eq_error_iff_head? {d : RuleDecl} {e : RuleError} :
    d.lower = .error e ↔ e.rule = d.name ∧ d.violations.head? = some e.cause := by
  rw [lower, lowerTraced, Traced.result_onError_eq_error_iff]
  simp only [(Lowering.reports_steps d).eq_error_iff]
  constructor
  · rintro ⟨cause, hcause, rfl⟩
    exact ⟨rfl, hcause⟩
  · rintro ⟨hrule, hcause⟩
    exact ⟨e.cause, hcause, by rw [← hrule]⟩

/-! ### Declarations without violations -/

theorem idViolations_eq_nil_iff {g : GraphDecl} :
    g.idViolations = [] ↔ g.nodeIds.Nodup ∧ g.edgeIds.Nodup := by
  rw [GraphDecl.idViolations, List.append_eq_nil_iff, List.map_eq_nil_iff, List.map_eq_nil_iff,
    repeats_eq_nil_iff, repeats_eq_nil_iff]

theorem leftNodeViolation_eq_nil_iff {d : RuleDecl} {n : String} :
    d.leftNodeViolation n = [] ↔ n ∈ d.lhs.nodeIds := by
  rw [leftNodeViolation]
  split <;> simp_all

theorem rightEndViolation_eq_nil_iff {d : RuleDecl} {e : EdgeDecl} {n : String} :
    d.rightEndViolation e n = [] ↔ n ∈ d.rhs.nodeIds := by
  rw [rightEndViolation]
  split
  · simp_all
  · split <;> simp_all

/-- Distinct variables make a scope. -/
theorem exists_scope {d : RuleDecl} (h : (d.vars.map (·.name)).Nodup) : ∃ Γ : Scope, Γ.Of d := by
  obtain ⟨vars, hvars⟩ := (Variables.reports_declareAll d.vars).exists_ok_iff.mpr
    (by rw [repeats_eq_nil_iff.mpr h, List.map_nil])
  have hholds := Variables.holds_empty.declareAll hvars
  refine ⟨⟨vars, fun n => n ∈ d.lhs.nodeIds⟩, fun x t => hholds.type?_eq_some_iff, fun n => ?_⟩
  exact decide_eq_true_iff

theorem labelViolations_eq_nil_iff {d : RuleDecl} {Γ : Scope} (hΓ : Γ.Of d) {l : Label} :
    d.labelViolations l = [] ↔ d.TypedLabel l := by
  rw [← (Scope.reports_checkLabel hΓ l).exists_ok_iff, ← Scope.checkLabel_eq_ok_iff hΓ]
  exact ⟨fun ⟨_, h⟩ => h, fun h => ⟨(), h⟩⟩

theorem conditionViolations_eq_nil_iff {d : RuleDecl} {Γ : Scope} (hΓ : Γ.Of d) {c : Condition} :
    d.conditionViolations c = [] ↔ d.TypedCondition c := by
  rw [← (Scope.reports_checkCondition hΓ c).exists_ok_iff, ← Scope.checkCondition_eq_ok_iff hΓ]
  exact ⟨fun ⟨_, h⟩ => h, fun h => ⟨(), h⟩⟩

/-- A declaration has no violations exactly if it is acceptable. -/
theorem violations_eq_nil_iff {d : RuleDecl} : d.violations = [] ↔ d.Acceptable := by
  simp only [violations, sideViolations, List.append_eq_nil_iff, List.map_eq_nil_iff,
    repeats_eq_nil_iff, idViolations_eq_nil_iff, List.flatMap_eq_nil_iff,
    leftNodeViolation_eq_nil_iff, rightEndViolation_eq_nil_iff, Option.mem_toList]
  constructor
  · rintro ⟨⟨⟨⟨⟨⟨hvars, hleft⟩, hright⟩, hleftEnds⟩, hrightEnds⟩, hlabels⟩, hcondition⟩
    obtain ⟨Γ, hΓ⟩ := exists_scope hvars
    exact {
      vars := hvars
      leftIds := hleft.1
      leftEdgeIds := hleft.2
      rightIds := hright.1
      rightEdgeIds := hright.2
      leftEnds := hleftEnds
      rightEnds := hrightEnds
      labels := fun l hl => (labelViolations_eq_nil_iff hΓ).mp (hlabels l hl)
      condition := fun c hc => (conditionViolations_eq_nil_iff hΓ).mp (hcondition c hc) }
  · intro h
    obtain ⟨Γ, hΓ⟩ := exists_scope h.vars
    refine ⟨⟨⟨⟨⟨⟨h.vars, h.leftIds, h.leftEdgeIds⟩, h.rightIds, h.rightEdgeIds⟩, h.leftEnds⟩,
      h.rightEnds⟩, ?_⟩, ?_⟩
    · exact fun l hl => (labelViolations_eq_nil_iff hΓ).mpr (h.labels l hl)
    · exact fun c hc => (conditionViolations_eq_nil_iff hΓ).mpr (h.condition c hc)

/-- Whether a declaration is acceptable does not depend on the order of its lists. -/
theorem Acceptable.of_sameEntries {d d' : RuleDecl} (h : d.Acceptable) (hd : d.SameEntries d') :
    d'.Acceptable := by
  have hleft : d'.lhs.nodeIds.Perm d.lhs.nodeIds := hd.leftNodes.map _
  have hright : d'.rhs.nodeIds.Perm d.rhs.nodeIds := hd.rightNodes.map _
  have hleftEdges : d'.lhs.edgeIds.Perm d.lhs.edgeIds := hd.leftEdges.filterMap _
  have hrightEdges : d'.rhs.edgeIds.Perm d.rhs.edgeIds := hd.rightEdges.filterMap _
  have hlabels : d'.labels.Perm d.labels :=
    (((hd.leftNodes.map _).append (hd.rightNodes.map _)).append (hd.leftEdges.map _)).append
      (hd.rightEdges.map _)
  -- both declarations have a scope in common, so the same is well-typed in both
  obtain ⟨Γ, hΓ⟩ := exists_scope h.vars
  have hΓ' : Γ.Of d' :=
    ⟨fun x t => (hΓ.vars x t).trans hd.vars.mem_iff.symm,
      fun n => (hΓ.nodes n).trans hleft.mem_iff.symm⟩
  exact {
    vars := (hd.vars.map _).nodup_iff.mpr h.vars
    leftIds := hleft.nodup_iff.mpr h.leftIds
    leftEdgeIds := hleftEdges.nodup_iff.mpr h.leftEdgeIds
    rightIds := hright.nodup_iff.mpr h.rightIds
    rightEdgeIds := hrightEdges.nodup_iff.mpr h.rightEdgeIds
    leftEnds := fun e he =>
      (h.leftEnds e (hd.leftEdges.mem_iff.mp he)).imp hleft.mem_iff.mpr hleft.mem_iff.mpr
    rightEnds := fun e he =>
      (h.rightEnds e (hd.rightEdges.mem_iff.mp he)).imp hright.mem_iff.mpr hright.mem_iff.mpr
    labels := fun l hl => (Scope.typedLabel_iff hΓ hΓ').mpr (h.labels l (hlabels.mem_iff.mp hl))
    condition := fun c hc => (Scope.typedCondition_iff hΓ hΓ').mpr
      (h.condition c (hd.condition ▸ hc)) }

/-- A declaration lowers to a rule exactly if it is acceptable. -/
theorem exists_lower_iff {d : RuleDecl} : (∃ r, d.lower = .ok r) ↔ d.Acceptable :=
  exists_lower_iff_violations.trans violations_eq_nil_iff

end RuleDecl

/-- **Exactly the acceptable declarations lower to a rule, and any other fails with its first
violation**, attributed to the name of the rule. -/
theorem lower_iff_acceptable (d : RuleDecl) : ((∃ r, d.lower = .ok r) ↔ d.Acceptable) ∧
    ∀ e, d.lower = .error e ↔ e.rule = d.name ∧ d.violations.head? = some e.cause :=
  ⟨RuleDecl.exists_lower_iff, fun _ => RuleDecl.lower_eq_error_iff_head?⟩

/-- The node `b` is missing on the left, and `a` on the right, where an edge ends in it. -/
example :
    RuleDecl.violations {
        name := "r"
        lhs := {
          nodes := [{ id := "a" }]
          edges := [{ source := "a", target := "b" }] }
        rhs := {
          nodes := [{ id := "b" }]
          edges := [{ id := "e", source := "a", target := "b" }] } } =
      [.unknownItem "b", .danglingEdge "e" "a"] := by
  decide +kernel

end GraphTransform
