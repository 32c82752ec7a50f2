import GraphTransform.Proofs.Sequences
import GraphTransform.Proofs.Sides
import GraphTransform.Proofs.Variables

/-!
# Typing rules

What it takes for an atom, a label or a condition of a declaration to be well-typed, as rules about
the declared variables and the nodes of the left side: an atom has a type (`RuleDecl.HasType`), two
lists may be compared (`RuleDecl.Comparable`), a condition is well-typed
(`RuleDecl.TypedCondition`).

The static check decides the rules. In a scope of the declaration (`Scope.Of`) it infers a type
exactly if the atom has it (`infer_eq_ok_iff`), and it passes labels and conditions exactly if they
are well-typed (`checkLabel_eq_ok_iff`, `checkCondition_eq_ok_iff`).
-/

namespace GraphTransform

/-! ### The rules -/

/-- A variable of the type may be asked for its length. -/
def ValueType.HasLength (t : ValueType) : Prop := t = .list ∨ ValueType.string.holds t = true

instance (t : ValueType) : Decidable t.HasLength := inferInstanceAs (Decidable (_ ∨ _))

namespace RuleDecl

variable (d : RuleDecl)

/-- An atom has a type in a declaration. -/
inductive HasType : Atom → ValueType → Prop where
  /-- An integer. -/
  | int (n : Int64) : HasType (.int n) .integer
  /-- A string of one character. -/
  | character {s : String} : s.length = 1 → HasType (.str s) .character
  /-- Any other string. -/
  | string {s : String} : s.length ≠ 1 → HasType (.str s) .string
  /-- A declared variable. -/
  | var {x : String} {t : ValueType} : (⟨x, t⟩ : Variable) ∈ d.vars → HasType (.var x) t
  /-- The degree of a node of the left side. -/
  | degree (direction : Direction) {n : String} :
      n ∈ d.lhs.nodeIds → HasType (.degree direction n) .integer
  /-- The length of a variable that has one. -/
  | length {x : String} {t : ValueType} :
      (⟨x, t⟩ : Variable) ∈ d.vars → t.HasLength → HasType (.length x) .integer
  /-- The negation of an integer. -/
  | neg {a : Atom} : HasType a .integer → HasType (.neg a) .integer
  /-- An operation on integers. -/
  | arith (op : ArithOp) {a b : Atom} :
      HasType a .integer → HasType b .integer → HasType (.arith op a b) .integer
  /-- The concatenation of strings. -/
  | concat {a b : Atom} {t u : ValueType} :
      HasType a t → ValueType.string.holds t = true → HasType b u →
      ValueType.string.holds u = true → HasType (.concat a b) .string

/-- Every atom of the label has a type. -/
def TypedLabel (l : Label) : Prop := ∀ a ∈ l.list, ∃ t, d.HasType a t

/-- The lists may be compared. -/
structure Comparable (l r : List Atom) : Prop where
  /-- No element is a variable of the type of integers. -/
  elements : ∀ x, .var x ∈ l ++ r → (⟨x, .integer⟩ : Variable) ∉ d.vars
  /-- Every element has a type. -/
  typed : ∀ a ∈ l ++ r, ∃ t, d.HasType a t
  /-- If no element is a list and both lists are equally long, then elements at the same position
  have types with a common value. -/
  overlap : (∀ a ∈ l ++ r, ¬ d.HasType a .list) → l.length = r.length →
    ∀ p ∈ l.zip r, ∀ t u, d.HasType p.1 t → d.HasType p.2 u → t.overlaps u = true

/-- The condition is well-typed. -/
def TypedCondition : Condition → Prop
  | .is test x => ∃ t, (⟨x, t⟩ : Variable) ∈ d.vars ∧ t.holds test.type = true
  | .edge s t l => s ∈ d.lhs.nodeIds ∧ t ∈ d.lhs.nodeIds ∧ ∀ label ∈ l, d.TypedLabel label
  | .eq l r => d.Comparable l r
  | .neq l r => d.Comparable l r
  | .cmp _ l r => d.HasType l .integer ∧ d.HasType r .integer
  | .not c => TypedCondition c
  | .and c c' => TypedCondition c ∧ TypedCondition c'
  | .or c c' => TypedCondition c ∧ TypedCondition c'

end RuleDecl

/-! ### The scope of a declaration -/

/-- The names in scope are those that the declaration declares. -/
structure Scope.Of (Γ : Scope) (d : RuleDecl) : Prop where
  /-- The variables. -/
  vars : ∀ x t, Γ.vars.type? x = some t ↔ (⟨x, t⟩ : Variable) ∈ d.vars
  /-- The nodes of the left side. -/
  nodes : ∀ n, Γ.isLeftNode n = true ↔ n ∈ d.lhs.nodeIds

/-- The tables of the variables and of the nodes make a scope of the declaration. -/
theorem Lowering.scope_of {d : RuleDecl} {s : Lowering.Sides} (hvars : s.vars.Holds d.vars)
    (hnodes : s.nodes.Holds d.nodeEntries) : s.scope.Of d where
  vars x t := hvars.type?_eq_some_iff
  nodes n := by
    change (s.nodes.lookup? n).any (·.left.isSome) = true ↔ _
    rw [hnodes.lookup?, RuleDecl.nodeEntries, Correspondence.find?_nodeEntries]
    by_cases hn : n ∈ d.lhs.nodeIds
    · simp [hn, Correspondence.ofIds, List.isSome_idxOf?]
    · have hnone : d.lhs.nodeIds.idxOf? n = none := List.idxOf?_eq_none_iff.mpr hn
      by_cases hr : n ∈ d.rhs.nodeIds <;> simp [hn, hr, Correspondence.ofIds, hnone]

theorem Lowering.Built.scope_of {d : RuleDecl} {s : Lowering.Sides} (h : Lowering.Built d s) :
    s.scope.Of d :=
  Lowering.scope_of (Variables.holds_empty.declareAll h.vars) h.nodes

namespace Scope

section Requirements

variable {Γ : Scope} {a : Atom} {t : ValueType}

theorem typeOf_eq_ok_iff {x : String} : Γ.typeOf x = .ok t ↔ Γ.vars.type? x = some t := by
  rw [typeOf]
  cases Γ.vars.type? x <;> simp

theorem requireLeftNode_eq_ok_iff {n : String} {u : Unit} :
    Γ.requireLeftNode n = .ok u ↔ Γ.isLeftNode n = true := by
  rw [requireLeftNode]
  cases Γ.isLeftNode n <;> simp

theorem requireInteger_eq_ok_iff {u : Unit} : requireInteger a t = .ok u ↔ t = .integer := by
  rw [requireInteger]
  split <;> simp_all

theorem requireString_eq_ok_iff {u : Unit} :
    requireString a t = .ok u ↔ ValueType.string.holds t = true := by
  rw [requireString]
  split <;> simp_all

theorem requireLength_eq_ok_iff {x : String} {u : Unit} :
    requireLength x t = .ok u ↔ t.HasLength := by
  cases t <;> simp [requireLength, ValueType.HasLength, ValueType.holds]

end Requirements

/-! ### The check decides the rules -/

section Decides

variable {Γ : Scope} {d : RuleDecl} (hΓ : Γ.Of d)

include hΓ

/-- **The check infers a type exactly if the atom has it.** -/
theorem infer_eq_ok_iff {a : Atom} {t : ValueType} : Γ.infer a = .ok t ↔ d.HasType a t := by
  induction a generalizing t with
  | int n =>
    constructor
    · intro h
      obtain rfl := Except.ok.inj h
      exact .int n
    · rintro ⟨⟩
      rfl
  | str s =>
    rw [infer, Except.ok.injEq]
    constructor
    · rintro rfl
      split
      · next hs => exact .character hs
      · next hs => exact .string hs
    · rintro (_ | hs | hs)
      · exact if_pos hs
      · exact if_neg hs
  | var x =>
    rw [infer, typeOf_eq_ok_iff, hΓ.vars]
    constructor
    · exact .var
    · rintro ⟨⟩
      assumption
  | degree direction n =>
    simp only [infer, bind_eq_ok_iff, requireLeftNode_eq_ok_iff, hΓ.nodes, pure, Except.pure,
      Except.ok.injEq]
    constructor
    · rintro ⟨⟨⟩, hn, rfl⟩
      exact .degree direction hn
    · rintro ⟨⟩
      exact ⟨(), ‹_›, rfl⟩
  | length x =>
    simp only [infer, bind_eq_ok_iff, typeOf_eq_ok_iff, hΓ.vars, requireLength_eq_ok_iff,
      pure, Except.pure, Except.ok.injEq]
    constructor
    · rintro ⟨u, hx, ⟨⟩, hu, rfl⟩
      exact .length hx hu
    · rintro ⟨⟩
      exact ⟨_, ‹_›, (), ‹_›, rfl⟩
  | neg a ih =>
    simp only [infer, bind_eq_ok_iff, ih, requireInteger_eq_ok_iff, pure, Except.pure,
      Except.ok.injEq]
    constructor
    · rintro ⟨u, ha, ⟨⟩, rfl, rfl⟩
      exact .neg ha
    · rintro ⟨⟩
      exact ⟨_, ‹_›, (), rfl, rfl⟩
  | arith op a b iha ihb =>
    simp only [infer, bind_eq_ok_iff, iha, ihb, requireInteger_eq_ok_iff, pure, Except.pure,
      Except.ok.injEq]
    constructor
    · rintro ⟨u, ha, ⟨⟩, rfl, w, hb, ⟨⟩, rfl, rfl⟩
      exact .arith op ha hb
    · rintro ⟨⟩
      exact ⟨_, ‹_›, (), rfl, _, ‹_›, (), rfl, rfl⟩
  | concat a b iha ihb =>
    simp only [infer, bind_eq_ok_iff, iha, ihb, requireString_eq_ok_iff, pure, Except.pure,
      Except.ok.injEq]
    constructor
    · rintro ⟨u, ha, ⟨⟩, hu, w, hb, ⟨⟩, hw, rfl⟩
      exact .concat ha hu hb hw
    · rintro (_ | _ | _ | _ | _ | _ | _ | _ | ⟨ha, hu, hb, hw⟩)
      exact ⟨_, ha, (), hu, _, hb, (), hw, rfl⟩

/-- An atom has at most one type. -/
theorem hasType_unique {a : Atom} {t u : ValueType} (ht : d.HasType a t) (hu : d.HasType a u) :
    t = u := by
  rw [← infer_eq_ok_iff hΓ] at ht hu
  exact Except.ok.inj (ht.symm.trans hu)

theorem checkLabel_eq_ok_iff {l : Label} : Γ.checkLabel l = .ok () ↔ d.TypedLabel l := by
  rw [checkLabel, forM_eq_ok_iff]
  refine forall₂_congr fun a _ => ?_
  simp only [bind_eq_ok_iff, infer_eq_ok_iff hΓ, pure, Except.pure, and_true]

theorem checkInteger_eq_ok_iff {a : Atom} : Γ.checkInteger a = .ok () ↔ d.HasType a .integer := by
  simp only [checkInteger, bind_eq_ok_iff, infer_eq_ok_iff hΓ, requireInteger_eq_ok_iff,
    exists_eq_right]

theorem checkHolds_eq_ok_iff {x : String} {t : ValueType} :
    Γ.checkHolds x t = .ok () ↔ ∃ u, (⟨x, u⟩ : Variable) ∈ d.vars ∧ u.holds t = true := by
  simp only [checkHolds, bind_eq_ok_iff, typeOf_eq_ok_iff, hΓ.vars]
  refine exists_congr fun u => and_congr_right fun _ => ?_
  cases u.holds t <;> simp

/-- An element of a list passes if it is no variable, or one of another type than that of
integers. -/
theorem checkElement_eq_ok_iff {a : Atom} : Γ.checkElement a = .ok () ↔
    ∀ x, a = .var x → ∃ t, (⟨x, t⟩ : Variable) ∈ d.vars ∧ t ≠ .integer := by
  cases a with
  | var x =>
    simp only [checkElement, bind_eq_ok_iff, typeOf_eq_ok_iff, hΓ.vars, Atom.var.injEq, forall_eq']
    refine exists_congr fun t => and_congr_right fun _ => ?_
    by_cases ht : t = .integer <;> simp [ht]
  | _ => simp [checkElement]

/-- Types overlap position by position exactly if those of the elements at every position do. -/
theorem checkOverlaps_eq_ok_iff {l r : List Atom} {ts us : List ValueType}
    (hl : List.Forall₂ (fun t a => d.HasType a t) ts l)
    (hr : List.Forall₂ (fun u b => d.HasType b u) us r) :
    checkOverlaps l ts us = .ok () ↔
      ∀ p ∈ l.zip r, ∀ t u, d.HasType p.1 t → d.HasType p.2 u → t.overlaps u = true := by
  induction hl generalizing us r with
  | nil => simp [checkOverlaps]
  | @cons t a ts l ha _ ih =>
    cases hr with
    | nil => simp [checkOverlaps]
    | @cons u b us r hb hr =>
      have hhead : (∀ t' u', d.HasType a t' → d.HasType b u' → t'.overlaps u' = true) ↔
          t.overlaps u = true := by
        constructor
        · intro h
          exact h t u ha hb
        · intro h t' u' ht' hu'
          rwa [hasType_unique hΓ ht' ha, hasType_unique hΓ hu' hb]
      rw [List.zip_cons_cons, List.forall_mem_cons, hhead, ← ih hr, checkOverlaps]
      by_cases h : t.overlaps u = true <;> simp [h]

/-- Some element of a list has the type of lists exactly if this type is among those of the
elements. -/
theorem list_mem_iff {ts : List ValueType} {as : List Atom}
    (h : List.Forall₂ (fun t a => d.HasType a t) ts as) :
    .list ∈ ts ↔ ∃ a ∈ as, d.HasType a .list := by
  constructor
  · intro hmem
    obtain ⟨i, hi, heq⟩ := List.mem_iff_getElem.mp hmem
    have hi' : i < as.length := h.length_eq ▸ hi
    have ha := h.get hi hi'
    rw [List.get_eq_getElem, List.get_eq_getElem, heq] at ha
    exact ⟨as[i], List.getElem_mem hi', ha⟩
  · rintro ⟨a, hmem, ha⟩
    obtain ⟨i, hi, rfl⟩ := List.mem_iff_getElem.mp hmem
    have hi' : i < ts.length := h.length_eq ▸ hi
    rw [hasType_unique hΓ ha (h.get hi' hi)]
    exact List.getElem_mem hi'

/-- **The check passes a comparison exactly if the lists may be compared.** -/
theorem checkComparable_eq_ok_iff {l r : List Atom} :
    Γ.checkComparable l r = .ok () ↔ d.Comparable l r := by
  have htyped {as : List Atom} : (∀ a ∈ as, ∃ t, d.HasType a t) ↔
      ∃ ts, List.Forall₂ (fun t a => d.HasType a t) ts as := by
    simp only [← infer_eq_ok_iff hΓ, ← mapM_eq_ok_iff, exists_mapM_eq_ok_iff]
  -- the test whether types are compared at all, in terms of the lists
  have hopen {ts us : List ValueType} (hl : List.Forall₂ (fun t a => d.HasType a t) ts l)
      (hr : List.Forall₂ (fun u b => d.HasType b u) us r) :
      (.list ∈ ts ∨ .list ∈ us ∨ ts.length ≠ us.length) ↔
        ¬ ((∀ a ∈ l ++ r, ¬ d.HasType a .list) ∧ l.length = r.length) := by
    rw [list_mem_iff hΓ hl, list_mem_iff hΓ hr, hl.length_eq, hr.length_eq]
    simp only [List.mem_append, or_imp, forall_and]
    grind
  simp only [checkComparable, bind_eq_ok_iff, forM_eq_ok_iff, mapM_eq_ok_iff, infer_eq_ok_iff hΓ,
    checkElement_eq_ok_iff hΓ]
  constructor
  · rintro ⟨⟨⟩, helements, ts, hl, us, hr, hok⟩
    refine ⟨fun x hx hint => ?_, ?_, fun hlists hlength => ?_⟩
    · obtain ⟨t, ht, hne⟩ := helements _ hx x rfl
      rw [← hΓ.vars] at ht hint
      exact hne (Option.some.inj (ht.symm.trans hint))
    · rw [List.forall_mem_append]
      exact ⟨htyped.mpr ⟨ts, hl⟩, htyped.mpr ⟨us, hr⟩⟩
    · rw [if_neg (by rw [hopen hl hr]; exact not_not.mpr ⟨hlists, hlength⟩)] at hok
      exact (checkOverlaps_eq_ok_iff hΓ hl hr).mp hok
  · intro h
    have hall := h.typed
    rw [List.forall_mem_append, htyped, htyped] at hall
    obtain ⟨⟨ts, hl⟩, us, hr⟩ := hall
    refine ⟨(), fun a ha x hx => ?_, ts, hl, us, hr, ?_⟩
    · subst hx
      obtain ⟨t, ht⟩ := h.typed _ ha
      cases ht with
      | var hmem => exact ⟨t, hmem, fun heq => h.elements x ha (heq ▸ hmem)⟩
    · split
      · rfl
      · next hclosed =>
        rw [hopen hl hr, not_not] at hclosed
        exact (checkOverlaps_eq_ok_iff hΓ hl hr).mpr (h.overlap hclosed.1 hclosed.2)

/-- **The check passes a condition exactly if it is well-typed.** -/
theorem checkCondition_eq_ok_iff {c : Condition} :
    Γ.checkCondition c = .ok () ↔ d.TypedCondition c := by
  induction c with
  | is test x => exact checkHolds_eq_ok_iff hΓ
  | edge s t l =>
    simp only [checkCondition, RuleDecl.TypedCondition, bind_eq_ok_iff,
      requireLeftNode_eq_ok_iff, hΓ.nodes]
    cases l with
    | none => simp
    | some l => simp [checkLabel_eq_ok_iff hΓ]
  | eq l r => exact checkComparable_eq_ok_iff hΓ
  | neq l r => exact checkComparable_eq_ok_iff hΓ
  | cmp op l r =>
    simp only [checkCondition, RuleDecl.TypedCondition, bind_eq_ok_iff, checkInteger_eq_ok_iff hΓ]
    exact ⟨fun ⟨_, hl, hr⟩ => ⟨hl, hr⟩, fun ⟨hl, hr⟩ => ⟨(), hl, hr⟩⟩
  | not c ih => exact ih
  | and c c' ih ih' =>
    simp only [checkCondition, RuleDecl.TypedCondition, bind_eq_ok_iff, ← ih, ← ih']
    exact ⟨fun ⟨_, h, h'⟩ => ⟨h, h'⟩, fun ⟨h, h'⟩ => ⟨(), h, h'⟩⟩
  | or c c' ih ih' =>
    simp only [checkCondition, RuleDecl.TypedCondition, bind_eq_ok_iff, ← ih, ← ih']
    exact ⟨fun ⟨_, h, h'⟩ => ⟨h, h'⟩, fun ⟨h, h'⟩ => ⟨(), h, h'⟩⟩

end Decides

/-! ### Declarations with a common scope -/

section Common

variable {Γ : Scope} {d d' : RuleDecl} (hΓ : Γ.Of d) (hΓ' : Γ.Of d')

include hΓ hΓ'

/-- What is well-typed in a declaration is so in every other one with the same scope. -/
theorem typedLabel_iff {l : Label} : d'.TypedLabel l ↔ d.TypedLabel l :=
  (checkLabel_eq_ok_iff hΓ').symm.trans (checkLabel_eq_ok_iff hΓ)

theorem typedCondition_iff {c : Condition} : d'.TypedCondition c ↔ d.TypedCondition c :=
  (checkCondition_eq_ok_iff hΓ').symm.trans (checkCondition_eq_ok_iff hΓ)

end Common

end Scope

end GraphTransform
