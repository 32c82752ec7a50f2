import GraphTransform.Proofs.TypeSoundness

/-!
# Comparisons that are refused

The check refuses a comparison of two lists if at some position the elements have types without a
common value. It looks at types only where positions of elements are positions of values: both lists
are equally long, and no element is a variable of the type of lists, which may stand for any number
of values.

Such a refusal is sound (`Scope.judgesComparison`): under every match that fits the scope, the lists
are never equal. The proof goes the other way round. If both lists evaluate to the same values, then
each value has the types of both elements at its position (`forall₂_admits_of_evalList`), types with
a common value overlap, and so the comparison is admitted (`checkComparable_of_evalList_eq`). It
takes no induction over atoms to see that the value of an atom has its type: whatever the operands
are, an operation on integers yields an integer, and a concatenation yields a string
(`admits_of_eval`).
-/

namespace GraphTransform

/-! ### Statements -/

/-- The match binds the variables in scope to values of their types, and has degrees for the nodes
in scope. -/
structure Match.Fits (m : Match) (Γ : Scope) : Prop where
  /-- Every variable is bound to values of its type. -/
  binding : ∀ x t, Γ.vars.type? x = some t → ∃ values, m.binding x = some values ∧ t.Admits values
  /-- Every node has both degrees. -/
  degree : ∀ n, Γ.isLeftNode n = true → ∀ direction, ∃ k, m.degree direction n = some k

/-- The atom may stand in a list that is compared: it has a type, and it is no variable declared as
an integer. -/
structure Scope.IsElement (Γ : Scope) (a : Atom) : Prop where
  /-- It has a type. -/
  typed : ∃ t, Γ.infer a = .ok t
  /-- It is no variable declared as an integer. -/
  notInteger : ∀ x, a = .var x → Γ.vars.type? x ≠ some .integer

/-- What the judgement on the comparison of two lists guarantees. -/
structure Scope.JudgesComparison (Γ : Scope) (l r : List Atom) : Prop where
  /-- Whether the lists are asked to be equal or to differ does not matter. -/
  same : Γ.checkCondition (.neq l r) = Γ.checkCondition (.eq l r)
  /-- The order of the lists does not matter. -/
  comm : Γ.checkCondition (.eq l r) = .ok () ↔ Γ.checkCondition (.eq r l) = .ok ()
  /-- Lists of proper elements whose comparison is refused are never found to be equal. -/
  refused : (∀ a ∈ l ++ r, Γ.IsElement a) →
    ∀ e, Γ.checkCondition (.eq l r) = .error e → ∀ m : Match, m.Fits Γ →
    ((Condition.eq l r).eval Γ.vars m).result ≠ .ok true ∧
    ((Condition.neq l r).eval Γ.vars m).result ≠ .ok false

/-! ### Types with a common value -/

theorem ValueType.Admits.overlaps {t u : ValueType} {v : Value} (h : t.Admits [v])
    (h' : u.Admits [v]) : t.overlaps u = true := by
  cases v with
  | int i => cases t <;> cases u <;> first | rfl | exact h.elim | exact h'.elim
  | str s => cases t <;> cases u <;> first | rfl | exact h.elim | exact h'.elim

namespace Scope

/-- Types of lists of the same length overlap exactly if those at every position do. -/
theorem checkOverlaps_eq_ok_iff_forall₂ {as : List Atom} {ts us : List ValueType}
    (has : as.length = ts.length) (hts : ts.length = us.length) :
    checkOverlaps as ts us = .ok () ↔ List.Forall₂ (fun t u => t.overlaps u = true) ts us := by
  induction ts generalizing as us with
  | nil =>
    obtain rfl := List.length_eq_zero_iff.mp has
    obtain rfl := List.length_eq_zero_iff.mp hts.symm
    exact iff_of_true rfl .nil
  | cons t ts ih =>
    obtain ⟨a, as, rfl⟩ := List.exists_cons_of_length_eq_add_one has
    obtain ⟨u, us, rfl⟩ := List.exists_cons_of_length_eq_add_one hts.symm
    rw [checkOverlaps, List.forall₂_cons, ← ih (Nat.succ.inj has) (Nat.succ.inj hts)]
    by_cases h : t.overlaps u = true <;> simp [h]

/-- The check admits a comparison exactly if it admits all elements, and no types without a common
value are compared. -/
theorem checkComparable_eq_ok_iff_types {Γ : Scope} {l r : List Atom} :
    Γ.checkComparable l r = .ok () ↔ (∀ a ∈ l ++ r, Γ.checkElement a = .ok ()) ∧
      ∃ ts us, l.mapM Γ.infer = .ok ts ∧ r.mapM Γ.infer = .ok us ∧
      (.list ∉ ts → .list ∉ us → ts.length = us.length →
        List.Forall₂ (fun t u => t.overlaps u = true) ts us) := by
  simp only [checkComparable, bind_eq_ok_iff, forM_eq_ok_iff]
  constructor
  · rintro ⟨⟨⟩, helements, ts, hts, us, hus, hok⟩
    refine ⟨helements, ts, us, hts, hus, fun hl hr hlength => ?_⟩
    rw [if_neg (by simp [hl, hr, hlength])] at hok
    exact (checkOverlaps_eq_ok_iff_forall₂ (mapM_eq_ok_iff.mp hts).length_eq.symm hlength).mp hok
  · rintro ⟨helements, ts, us, hts, hus, hoverlaps⟩
    refine ⟨(), helements, ts, hts, us, hus, ?_⟩
    split
    · rfl
    · next hclosed =>
      rw [not_or, not_or, not_not] at hclosed
      obtain ⟨hl, hr, hlength⟩ := hclosed
      have htypes := hoverlaps hl hr hlength
      exact (checkOverlaps_eq_ok_iff_forall₂ (mapM_eq_ok_iff.mp hts).length_eq.symm hlength).mpr
        htypes

/-- A comparison that is admitted is so in the other order. -/
theorem checkComparable_of_exchanged {Γ : Scope} {l r : List Atom}
    (h : Γ.checkComparable l r = .ok ()) : Γ.checkComparable r l = .ok () := by
  rw [checkComparable_eq_ok_iff_types] at h ⊢
  obtain ⟨helements, ts, us, hts, hus, hoverlaps⟩ := h
  refine ⟨fun a ha => helements a ?_, us, ts, hus, hts, fun hr hl hlength => ?_⟩
  · exact List.mem_append.mpr (List.mem_append.mp ha).symm
  · refine (hoverlaps hl hr hlength.symm).flip.imp fun u t htu => ?_
    rwa [ValueType.overlaps_comm]

theorem IsElement.checkElement {Γ : Scope} {a : Atom} (h : Γ.IsElement a) :
    Γ.checkElement a = .ok () := by
  cases a with
  | var x =>
    obtain ⟨t, ht⟩ := h.typed
    have hne : t ≠ .integer := by
      rintro rfl
      exact h.notInteger x rfl (typeOf_eq_ok_iff.mp ht)
    have hx : Γ.typeOf x = .ok t := ht
    rw [Scope.checkElement, hx]
    exact if_neg hne
  | _ => rfl

end Scope

/-! ### Values have the types of their atoms -/

section Values

variable {Γ : Scope} {m : Match} (hm : m.Fits Γ)

include hm

/-- A variable that has a value for a question is bound to values of its type. -/
theorem admits_of_askBinding {x : String} {t : ValueType} {values : List Value}
    (hx : Γ.vars.type? x = some t) (hvalues : (m.askBinding x).result = .ok values) :
    t.Admits values := by
  obtain ⟨values', hbinding, hadmits⟩ := hm.binding x t hx
  rw [Match.askBinding, hbinding] at hvalues
  obtain rfl := Except.ok.inj hvalues
  exact hadmits

/-- **The value of an atom has the type of the atom**, unless that is the type of lists. -/
theorem admits_of_eval {a : Atom} {t : ValueType} (h : Γ.infer a = .ok t) (ht : t ≠ .list)
    {v : Value} (hv : (a.eval Γ.vars m).result = .ok v) : t.Admits [v] := by
  cases a with
  | int i =>
    obtain rfl := Except.ok.inj h
    obtain rfl := Except.ok.inj hv
    trivial
  | str s =>
    obtain rfl := Except.ok.inj h
    obtain rfl := Except.ok.inj hv
    by_cases hs : s.length = 1
    · rwa [if_pos hs]
    · rw [if_neg hs]
      trivial
  | var x =>
    simp only [Atom.eval, Traced.result_bind_eq_ok_iff, Traced.result_liftM] at hv
    obtain ⟨values, hvalues, hsingle⟩ := hv
    have hadmits := admits_of_askBinding hm (Scope.typeOf_eq_ok_iff.mp h) hvalues
    obtain ⟨w, rfl⟩ := hadmits.eq_singleton ht
    obtain rfl := Except.ok.inj hsingle
    exact hadmits
  | concat a b =>
    simp only [Scope.infer, bind_eq_ok_iff, pure, Except.pure, Except.ok.injEq] at h
    simp only [Atom.eval, Traced.result_bind_eq_ok_iff, Traced.result_pure, Except.ok.injEq] at hv
    obtain ⟨-, -, -, -, -, -, -, -, rfl⟩ := h
    obtain ⟨-, -, -, -, -, -, -, -, rfl⟩ := hv
    trivial
  | _ =>
    -- the other atoms have the type of integers, and what they yield in the end is an integer
    simp only [Scope.infer, bind_eq_ok_iff, pure, Except.pure, Except.ok.injEq] at h
    simp only [Atom.eval, Traced.result_bind_eq_ok_iff, Traced.result_pure, Except.ok.injEq] at hv
    have hinteger : t = .integer := by grind
    obtain ⟨i, rfl⟩ : ∃ i, v = .int i := by grind
    rw [hinteger]
    trivial

/-- An element of a list stands for one value of its type, unless it has the type of lists. -/
theorem exists_admits_of_evalElement {a : Atom} {t : ValueType} (h : Γ.infer a = .ok t)
    (ht : t ≠ .list) {values : List Value}
    (hvalues : (a.evalElement Γ.vars m).result = .ok values) :
    ∃ v, values = [v] ∧ t.Admits [v] := by
  unfold Atom.evalElement at hvalues
  split at hvalues
  · have hadmits := admits_of_askBinding hm (Scope.typeOf_eq_ok_iff.mp h) hvalues
    obtain ⟨v, rfl⟩ := hadmits.eq_singleton ht
    exact ⟨v, rfl, hadmits⟩
  · simp only [Traced.result_bind_eq_ok_iff, Traced.result_pure, Except.ok.injEq] at hvalues
    obtain ⟨v, hv, rfl⟩ := hvalues
    exact ⟨v, rfl, admits_of_eval hm h ht hv⟩

/-- **A list without elements of the type of lists stands for one value for each element**, of the
type of the element. -/
theorem forall₂_admits_of_evalList {as : List Atom} {ts : List ValueType}
    (h : as.mapM Γ.infer = .ok ts) (hts : .list ∉ ts) {values : List Value}
    (hvalues : (Atom.evalList Γ.vars m as).result = .ok values) :
    List.Forall₂ (fun t v => t.Admits [v]) ts values := by
  rw [mapM_eq_ok_iff] at h
  induction h generalizing values with
  | nil =>
    obtain rfl := Except.ok.inj hvalues
    exact .nil
  | @cons t a ts as ha _ ih =>
    rw [List.mem_cons, not_or] at hts
    simp only [Atom.evalList, Traced.result_bind_eq_ok_iff, Traced.result_pure,
      Except.ok.injEq] at hvalues
    obtain ⟨first, hfirst, others, hothers, rfl⟩ := hvalues
    obtain ⟨v, rfl, hv⟩ := exists_admits_of_evalElement hm ha (Ne.symm hts.1) hfirst
    exact .cons hv (ih hts.2 hothers)

/-- **Lists that evaluate to the same values may be compared**, if their elements may stand in such
lists. -/
theorem checkComparable_of_evalList_eq {l r : List Atom} (helements : ∀ a ∈ l ++ r, Γ.IsElement a)
    {values : List Value} (hl : (Atom.evalList Γ.vars m l).result = .ok values)
    (hr : (Atom.evalList Γ.vars m r).result = .ok values) : Γ.checkComparable l r = .ok () := by
  have htyped := List.forall_mem_append.mp fun a ha => (helements a ha).typed
  obtain ⟨ts, hts⟩ := exists_mapM_eq_ok_iff.mpr htyped.1
  obtain ⟨us, hus⟩ := exists_mapM_eq_ok_iff.mpr htyped.2
  rw [Scope.checkComparable_eq_ok_iff_types]
  refine ⟨fun a ha => (helements a ha).checkElement, ts, us, hts, hus, fun hl' hr' _ => ?_⟩
  have hleft := forall₂_admits_of_evalList hm hts hl' hl
  have hright := forall₂_admits_of_evalList hm hus hr' hr
  exact forall₂_trans (fun _ _ _ h h' => h.overlaps h') hleft hright.flip

end Values

/-! ### Comparisons -/

namespace Condition

variable {vs : Variables} {m : Match} {l r : List Atom}

/-- Lists are found to be equal exactly if they stand for the same values. -/
theorem result_eval_eq_true_iff :
    ((Condition.eq l r).eval vs m).result = .ok true ↔
      ∃ values, (Atom.evalList vs m l).result = .ok values ∧
      (Atom.evalList vs m r).result = .ok values := by
  simp only [eval, Traced.result_bind_eq_ok_iff, Traced.result_pure, Except.ok.injEq,
    decide_eq_true_eq]
  constructor
  · rintro ⟨ls, hls, rs, hrs, rfl⟩
    exact ⟨ls, hls, hrs⟩
  · rintro ⟨values, hls, hrs⟩
    exact ⟨values, hls, values, hrs, rfl⟩

/-- They are found not to differ in the same case. -/
theorem result_eval_neq_false_iff : ((Condition.neq l r).eval vs m).result = .ok false ↔
    ((Condition.eq l r).eval vs m).result = .ok true := by
  rw [result_eval_eq_true_iff]
  simp only [eval, Traced.result_bind_eq_ok_iff, Traced.result_pure, Except.ok.injEq,
    decide_eq_false_iff_not, not_not]
  constructor
  · rintro ⟨ls, hls, rs, hrs, rfl⟩
    exact ⟨ls, hls, hrs⟩
  · rintro ⟨values, hls, hrs⟩
    exact ⟨values, hls, values, hrs, rfl⟩

end Condition

/-- Lists of proper elements that are found to be equal under a match that fits the scope are not
refused. -/
theorem checkComparable_of_eval_eq_true {Γ : Scope} {m : Match} (hm : m.Fits Γ) {l r : List Atom}
    (helements : ∀ a ∈ l ++ r, Γ.IsElement a)
    (h : ((Condition.eq l r).eval Γ.vars m).result = .ok true) :
    Γ.checkComparable l r = .ok () := by
  obtain ⟨values, hl, hr⟩ := Condition.result_eval_eq_true_iff.mp h
  exact checkComparable_of_evalList_eq hm helements hl hr

/-- **Refusals of comparisons are sound**: lists of proper elements whose comparison is refused are
never found to be equal, under any match that fits the scope. Neither the kind of the comparison nor
the order of the lists matters for the judgement. -/
theorem Scope.judgesComparison (Γ : Scope) (l r : List Atom) : Γ.JudgesComparison l r where
  same := rfl
  comm := ⟨checkComparable_of_exchanged, checkComparable_of_exchanged⟩
  refused := by
    intro helements e herror m hm
    have hunequal : ((Condition.eq l r).eval Γ.vars m).result ≠ .ok true := by
      intro htrue
      have hok : Γ.checkCondition (.eq l r) = .ok () :=
        checkComparable_of_eval_eq_true hm helements htrue
      cases hok.symm.trans herror
    exact ⟨hunequal, mt Condition.result_eval_neq_false_iff.mp hunequal⟩

/-- The declarations of an atom `a` and a string `s`. -/
def atomAndString : List Variable := [⟨"a", .atom⟩, ⟨"s", .string⟩]

/-- The scope of these variables. -/
def atomAndStringScope : Scope where
  vars := ⟨atomAndString.toArray, .ofList [("a", 0), ("s", 1)]⟩
  isLeftNode _ := false

/-- The left list of the comparison that is refused. -/
def exclaimed : List Atom := [.var "a", .concat (.var "s") (.str "!")]

/-- The right list of the comparison that is refused. -/
def measured : List Atom := [.str "xy", .length "s"]

/-- A match that binds all variables to the string `xy`. -/
def sameStringMatch : Match where
  binding _ := some [.str "xy"]
  degree _ _ := none
  hasEdge _ _ _ := false

theorem sameStringMatch_fits : sameStringMatch.Fits atomAndStringScope where
  binding := by
    have hholds : atomAndStringScope.vars.Holds atomAndString :=
      Variables.holds_empty.declareAll rfl
    intro x t hx
    have hmem : (⟨x, t⟩ : Variable) ∈ atomAndString := hholds.type?_eq_some_iff.mp hx
    simp only [atomAndString, List.mem_cons, Variable.mk.injEq, List.not_mem_nil, or_false] at hmem
    rcases hmem with ⟨rfl, rfl⟩ | ⟨rfl, rfl⟩
    · exact ⟨_, rfl, trivial⟩
    · exact ⟨_, rfl, trivial⟩
  degree n hn := by cases hn

/-- The comparison is refused because of the second position, where a string would have to be equal
to a length. -/
theorem Scope.judgesComparison_exclaimed :
    (∀ a ∈ exclaimed ++ measured, atomAndStringScope.IsElement a) ∧
      sameStringMatch.Fits atomAndStringScope ∧
    atomAndStringScope.checkCondition (.eq exclaimed measured) =
      .error (.typeMismatch (Atom.text (.concat (.var "s") (.str "!"))) .integer .string) ∧
    ((Condition.eq exclaimed measured).eval atomAndStringScope.vars sameStringMatch).result ≠
      .ok true := by
  have helements : ∀ a ∈ exclaimed ++ measured, atomAndStringScope.IsElement a := by
    intro a ha
    simp only [exclaimed, measured, List.cons_append, List.nil_append, List.mem_cons,
      List.not_mem_nil, or_false] at ha
    rcases ha with rfl | rfl | rfl | rfl
    · exact ⟨⟨.atom, rfl⟩, fun x hx => by cases hx; decide +kernel⟩
    · exact ⟨⟨.string, rfl⟩, fun x hx => by cases hx⟩
    · exact ⟨⟨.string, rfl⟩, fun x hx => by cases hx⟩
    · exact ⟨⟨.integer, rfl⟩, fun x hx => by cases hx⟩
  have herror : atomAndStringScope.checkCondition (.eq exclaimed measured) =
      .error (.typeMismatch (Atom.text (.concat (.var "s") (.str "!"))) .integer .string) := rfl
  have hrefused :=
    (judgesComparison atomAndStringScope exclaimed measured).refused helements _ herror
  exact ⟨helements, sameStringMatch_fits, herror, (hrefused sameStringMatch sameStringMatch_fits).1⟩

end GraphTransform
