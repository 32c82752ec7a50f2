import GraphTransform.Proofs.Lowered
import GraphTransform.Proofs.TypingRules

/-!
# Type soundness

A match is well-typed for a declaration (`Match.WellTyped`) if it binds every variable to values of
its type and knows the degrees of the nodes of the left side. Under such a match, what the type
check admits has a value, or fails for a reason that types do not exclude (`EvalError.Excused`): a
division by zero if there is a division, and an overflow if there is arithmetic, or if a degree or a
length does not fit into 64 bits. `outcome_eval` says so for atoms, `outcome_evalCondition` for
conditions, and `typeSound_of_lower` for rules.

The proofs go along the recursion of the evaluation, with one lemma for each operation; `Outcome`
says what is known of a result, and `Outcome.bind` puts two of them together.
-/

namespace GraphTransform

/-- The values that a variable of a type may be bound to. -/
def ValueType.Admits : ValueType → List Value → Prop
  | .integer, [.int _] => True
  | .character, [.str s] => s.length = 1
  | .string, [.str _] => True
  | .atom, [_] => True
  | .list, _ => True
  | _, _ => False

/-- The match binds the variables to values of their types, and has degrees for the nodes of the
left side. -/
structure Match.WellTyped (m : Match) (d : RuleDecl) : Prop where
  /-- Every variable is bound to values of its type. -/
  binding : ∀ v ∈ d.vars, ∃ values, m.binding v.name = some values ∧ v.type.Admits values
  /-- Every node of the left side has both degrees. -/
  degree : ∀ n ∈ d.lhs.nodeIds, ∀ direction, ∃ k, m.degree direction n = some k

/-- The degrees of the nodes of the left side, and the lengths of what variables are bound to, fit
into 64 bits. -/
structure Match.Bounded (m : Match) (d : RuleDecl) : Prop where
  /-- The degrees. -/
  degree : ∀ n ∈ d.lhs.nodeIds, ∀ direction k, m.degree direction n = some k →
    k < 0x8000000000000000
  /-- The lengths of lists. -/
  list : ∀ v ∈ d.vars, ∀ values, m.binding v.name = some values → values.length < 0x8000000000000000
  /-- The lengths of strings. -/
  string : ∀ v ∈ d.vars, ∀ s, m.binding v.name = some [.str s] → s.length < 0x8000000000000000

/-- The atoms that an atom consists of, itself included. -/
def Atom.parts : Atom → List Atom
  | .neg a => .neg a :: a.parts
  | .arith op a b => .arith op a b :: (a.parts ++ b.parts)
  | .concat a b => .concat a b :: (a.parts ++ b.parts)
  | a => [a]

/-- The atom is an operation on integers. -/
def Atom.IsArithmetic : Atom → Prop
  | .neg _ => True
  | .arith _ _ _ => True
  | _ => False

/-- The atoms that a condition evaluates; those in labels of edges are not among them. -/
def Condition.atoms : Condition → List Atom
  | .is _ _ => []
  | .edge _ _ _ => []
  | .eq l r => (l ++ r).flatMap Atom.parts
  | .neq l r => (l ++ r).flatMap Atom.parts
  | .cmp _ l r => l.parts ++ r.parts
  | .not c => c.atoms
  | .and c d => c.atoms ++ d.atoms
  | .or c d => c.atoms ++ d.atoms

/-- The errors with which well-typed atoms may fail: a division by zero if there is a division among
them, and an overflow if there is arithmetic among them or if some length or degree is not
bounded. -/
def EvalError.Excused (atoms : List Atom) (bounded : Prop) : EvalError → Prop
  | .divisionByZero => ∃ a b, .arith .div a b ∈ atoms
  | .overflow => bounded → ∃ a ∈ atoms, a.IsArithmetic
  | _ => False

theorem EvalError.Excused.mono {as bs : List Atom} (h : as ⊆ bs) {bounded : Prop} {e : EvalError}
    (he : e.Excused as bounded) : e.Excused bs bounded := by
  cases e with
  | divisionByZero =>
    obtain ⟨a, b, hmem⟩ := he
    exact ⟨a, b, h hmem⟩
  | overflow =>
    intro hb
    obtain ⟨a, hmem, ha⟩ := he hb
    exact ⟨a, h hmem, ha⟩
  | _ => exact he

/-! ### Outcomes -/

/-- The outcome is a value with the property `P` or an error with the property `E`. -/
inductive Outcome {ε α : Type} (P : α → Prop) (E : ε → Prop) : Except ε α → Prop where
  /-- A value. -/
  | ok {a : α} : P a → Outcome P E (.ok a)
  /-- An error. -/
  | error {e : ε} : E e → Outcome P E (.error e)

namespace Outcome

variable {ε α β : Type} {P : α → Prop} {Q : β → Prop} {E : ε → Prop}

theorem bind {x : Except ε α} {f : α → Except ε β} (hx : Outcome P E x)
    (hf : ∀ a, P a → Outcome Q E (f a)) : Outcome Q E (x >>= f) := by
  cases hx with
  | ok h => exact hf _ h
  | error h => exact .error h

/-- More atoms excuse more errors. -/
theorem subset {as bs : List Atom} {bounded : Prop} {x : Except EvalError α}
    (hx : Outcome P (EvalError.Excused as bounded) x) (h : as ⊆ bs) :
    Outcome P (EvalError.Excused bs bounded) x := by
  cases hx with
  | ok hp => exact .ok hp
  | error he => exact .error (he.mono h)

/-- What is excused is a division by zero or an overflow. -/
theorem ok_or_error {as : List Atom} {bounded : Prop} {x : Except EvalError α}
    (hx : Outcome P (EvalError.Excused as bounded) x) :
    (∃ a, x = .ok a ∧ P a) ∨ x = .error .divisionByZero ∨ x = .error .overflow := by
  cases hx with
  | ok hp => exact Or.inl ⟨_, rfl, hp⟩
  | @error e he =>
    cases e with
    | divisionByZero => exact Or.inr (Or.inl rfl)
    | overflow => exact Or.inr (Or.inr rfl)
    | _ => cases he

theorem exists_division {as : List Atom} {bounded : Prop}
    (hx : Outcome P (EvalError.Excused as bounded) (.error .divisionByZero)) :
    ∃ a b, .arith .div a b ∈ as := by
  cases hx with
  | error he => exact he

/-- Nothing is excused without arithmetic, if degrees and lengths are bounded. -/
theorem exists_ok {as : List Atom} {bounded : Prop} {x : Except EvalError α}
    (hx : Outcome P (EvalError.Excused as bounded) x) (hb : bounded)
    (has : ∀ a ∈ as, ¬ a.IsArithmetic) : ∃ a, x = .ok a := by
  rcases hx.ok_or_error with ⟨a, ha, -⟩ | rfl | rfl
  · exact ⟨a, ha⟩
  · obtain ⟨a, b, hmem⟩ := hx.exists_division
    exact absurd trivial (has _ hmem)
  · cases hx with
    | error he =>
      obtain ⟨a, hmem, ha⟩ := he hb
      exact absurd ha (has a hmem)

end Outcome

/-! ### Operations -/

section Operations

variable {atoms : List Atom} {bounded : Prop}

theorem outcome_checked_length {k : Nat} (hk : bounded → k < 0x8000000000000000) :
    Outcome (fun _ => True) (EvalError.Excused atoms bounded) (checked k) := by
  rw [checked]
  cases h : toInt64? k with
  | some i => exact .ok trivial
  | none =>
    rw [toInt64?_eq_none_iff] at h
    refine .error fun hb => ?_
    have := hk hb
    omega

theorem outcome_checked {a : Atom} (hmem : a ∈ atoms) (ha : a.IsArithmetic) (n : Int) :
    Outcome (fun _ => True) (EvalError.Excused atoms bounded) (checked n) := by
  rw [checked]
  cases toInt64? n with
  | some i => exact .ok trivial
  | none => exact .error fun _ => ⟨a, hmem, ha⟩

theorem outcome_apply {op : ArithOp} {a b : Atom} (hmem : .arith op a b ∈ atoms) (i j : Int64) :
    Outcome (fun _ => True) (EvalError.Excused atoms bounded) (op.apply i j) := by
  cases op with
  | div =>
    rw [ArithOp.apply]
    by_cases hj : j = 0
    · rw [if_pos hj]
      exact .error ⟨a, b, hmem⟩
    · rw [if_neg hj]
      exact outcome_checked hmem trivial _
  | _ => exact outcome_checked hmem trivial _

theorem outcome_asInteger (a : Atom) {v : Value} (hv : ValueType.integer.Admits [v]) :
    Outcome (fun _ => True) (EvalError.Excused atoms bounded) (a.asInteger v) := by
  cases v with
  | int i => exact .ok trivial
  | str s => cases hv

theorem outcome_asString (a : Atom) (s : String) :
    Outcome (fun _ => True) (EvalError.Excused atoms bounded) (a.asString (.str s)) := .ok trivial

end Operations

/-! ### The scope -/

namespace Scope

variable {Γ : Scope} {a : Atom} {t : ValueType}

/-- Only a variable may have the type of lists. -/
theorem infer_ne_list (ha : ∀ x, a ≠ .var x) (h : Γ.infer a = .ok t) : t ≠ .list := by
  cases a with
  | var x => exact absurd rfl (ha x)
  | str s =>
    simp only [infer, Except.ok.injEq] at h
    split at h <;> simp [← h]
  | int i =>
    simp only [infer, Except.ok.injEq] at h
    simp [← h]
  | _ =>
    simp only [infer, bind_eq_ok_iff, pure, Except.pure, Except.ok.injEq] at h
    grind

end Scope

namespace ValueType.Admits

variable {t : ValueType} {values : List Value}

/-- A variable of a type other than that of lists is bound to a single value. -/
theorem eq_singleton (h : t.Admits values) (ht : t ≠ .list) : ∃ v, values = [v] := by
  unfold Admits at h
  split at h <;> first | exact ⟨_, rfl⟩ | contradiction

/-- A variable of a type of strings is bound to a single string. -/
theorem eq_str (h : t.Admits values) (ht : ValueType.string.holds t = true) :
    ∃ s, values = [.str s] := by
  unfold Admits at h
  split at h <;> first | exact ⟨_, rfl⟩ | cases ht | contradiction

end ValueType.Admits

/-! ### Atoms -/

section Sound

variable {Γ : Scope} {d : RuleDecl} {m : Match} (hΓ : Γ.Of d)

include hΓ

theorem outcome_measure {x : String} {t : ValueType} (hx : Γ.vars.type? x = some t)
    {values : List Value} (hvalues : m.binding x = some values) (hadmits : t.Admits values)
    (atoms : List Atom) :
    Outcome (fun _ => True) (EvalError.Excused atoms (m.Bounded d))
      (Atom.measure (Γ.vars.type? x) x values) := by
  have hmem := (hΓ.vars x t).mp hx
  by_cases ht : Γ.vars.type? x = some .string ∨ Γ.vars.type? x = some .character
  · have hholds : ValueType.string.holds t = true := by
      rcases ht with ht | ht
      · rw [Option.some.inj (hx.symm.trans ht)]
        rfl
      · rw [Option.some.inj (hx.symm.trans ht)]
        rfl
    obtain ⟨s, rfl⟩ := hadmits.eq_str hholds
    simp only [Atom.measure, if_pos ht]
    exact outcome_checked_length fun hb => hb.string ⟨x, t⟩ hmem s hvalues
  · unfold Atom.measure
    rw [if_neg ht]
    exact outcome_checked_length fun hb => hb.list ⟨x, t⟩ hmem values hvalues

variable (hm : m.WellTyped d)

include hm

theorem binding_of_type? {x : String} {t : ValueType} (hx : Γ.vars.type? x = some t) :
    ∃ values, m.binding x = some values ∧ t.Admits values :=
  hm.binding ⟨x, t⟩ ((hΓ.vars x t).mp hx)

theorem outcome_askBinding {x : String} {t : ValueType} (hx : Γ.vars.type? x = some t)
    (E : EvalError → Prop) :
    Outcome (fun values => m.binding x = some values ∧ t.Admits values) E
      (m.askBinding x).result := by
  obtain ⟨values, hvalues, hadmits⟩ := binding_of_type? hΓ hm hx
  rw [Match.askBinding, hvalues]
  exact .ok ⟨rfl, hadmits⟩

theorem outcome_askDegree {n : String} (hn : Γ.isLeftNode n = true) (direction : Direction)
    (atoms : List Atom) :
    Outcome (fun _ => True) (EvalError.Excused atoms (m.Bounded d))
      (m.askDegree direction n).result := by
  have hmem := (hΓ.nodes n).mp hn
  obtain ⟨k, hk⟩ := hm.degree n hmem direction
  simp only [Match.askDegree, hk]
  exact outcome_checked_length fun hb => hb.degree n hmem direction k hk

/-- **An atom with a type other than that of lists evaluates to a value of this type**, unless it is
excused. -/
theorem outcome_eval {a : Atom} {t : ValueType} (h : Γ.infer a = .ok t) (ht : t ≠ .list) :
    Outcome (fun v => t.Admits [v]) (EvalError.Excused a.parts (m.Bounded d))
      (a.eval Γ.vars m).result := by
  induction a generalizing t with
  | int i =>
    obtain rfl := Except.ok.inj h
    exact .ok trivial
  | str s =>
    obtain rfl := Except.ok.inj h
    by_cases hs : s.length = 1
    · rw [if_pos hs]
      exact .ok hs
    · rw [if_neg hs]
      exact .ok trivial
  | var x =>
    have hx := Scope.typeOf_eq_ok_iff.mp h
    rw [Atom.eval, Traced.result_bind]
    refine (outcome_askBinding hΓ hm hx _).bind fun values hvalues => ?_
    obtain ⟨v, rfl⟩ := hvalues.2.eq_singleton ht
    exact .ok hvalues.2
  | degree direction n =>
    simp only [Scope.infer, bind_eq_ok_iff, Scope.requireLeftNode_eq_ok_iff] at h
    obtain ⟨-, hn, heq⟩ := h
    obtain rfl := Except.ok.inj heq
    rw [Atom.eval, Traced.result_bind]
    exact (outcome_askDegree hΓ hm hn direction _).bind fun _ _ => .ok trivial
  | length x =>
    simp only [Scope.infer, bind_eq_ok_iff, Scope.typeOf_eq_ok_iff] at h
    obtain ⟨u, hx, -, -, heq⟩ := h
    obtain rfl := Except.ok.inj heq
    simp only [Atom.eval, Traced.result_bind, Traced.result_liftM]
    refine (outcome_askBinding hΓ hm hx _).bind fun values hvalues => ?_
    exact (outcome_measure hΓ hx hvalues.1 hvalues.2 _).bind fun _ _ => .ok trivial
  | neg a ih =>
    simp only [Scope.infer, bind_eq_ok_iff, Scope.requireInteger_eq_ok_iff] at h
    obtain ⟨u, ha, -, rfl, heq⟩ := h
    obtain rfl := Except.ok.inj heq
    simp only [Atom.eval, Traced.result_bind, Traced.result_liftM]
    refine ((ih ha ht).subset (List.subset_cons_self ..)).bind fun v hv => ?_
    refine (outcome_asInteger a hv).bind fun i _ => ?_
    exact (outcome_checked (a := .neg a) List.mem_cons_self trivial _).bind fun _ _ => .ok trivial
  | arith op a b iha ihb =>
    simp only [Scope.infer, bind_eq_ok_iff, Scope.requireInteger_eq_ok_iff] at h
    obtain ⟨u, ha, -, rfl, w, hb, -, rfl, heq⟩ := h
    obtain rfl := Except.ok.inj heq
    simp only [Atom.eval, Traced.result_bind, Traced.result_liftM]
    refine ((iha ha ht).subset fun c hc => ?_).bind fun v hv => ?_
    · simp [Atom.parts, hc]
    refine (outcome_asInteger a hv).bind fun i _ => ?_
    refine ((ihb hb ht).subset fun c hc => ?_).bind fun w hw => ?_
    · simp [Atom.parts, hc]
    refine (outcome_asInteger b hw).bind fun j _ => ?_
    exact (outcome_apply List.mem_cons_self i j).bind fun _ _ => .ok trivial
  | concat a b iha ihb =>
    simp only [Scope.infer, bind_eq_ok_iff, Scope.requireString_eq_ok_iff] at h
    obtain ⟨u, ha, -, hu, w, hb, -, hw, heq⟩ := h
    obtain rfl := Except.ok.inj heq
    have hne {t : ValueType} (h : ValueType.string.holds t = true) : t ≠ .list := by
      rintro rfl
      cases h
    simp only [Atom.eval, Traced.result_bind, Traced.result_liftM]
    refine ((iha ha (hne hu)).subset fun c hc => ?_).bind fun v hv => ?_
    · simp [Atom.parts, hc]
    obtain ⟨i, hi⟩ := hv.eq_str hu
    obtain rfl := List.singleton_inj.mp hi
    refine (outcome_asString a i).bind fun _ _ => ?_
    refine ((ihb hb (hne hw)).subset fun c hc => ?_).bind fun v hv => ?_
    · simp [Atom.parts, hc]
    obtain ⟨j, hj⟩ := hv.eq_str hw
    obtain rfl := List.singleton_inj.mp hj
    exact (outcome_asString b j).bind fun _ _ => .ok trivial

/-- An element of a list evaluates, unless it is excused: a variable of any type may stand there. -/
theorem outcome_evalElement {a : Atom} {t : ValueType} (h : Γ.infer a = .ok t) :
    Outcome (fun _ => True) (EvalError.Excused a.parts (m.Bounded d))
      (a.evalElement Γ.vars m).result := by
  by_cases ha : ∃ x, a = .var x
  · obtain ⟨x, rfl⟩ := ha
    obtain ⟨values, hvalues, -⟩ := binding_of_type? hΓ hm (Scope.typeOf_eq_ok_iff.mp h)
    simp only [Atom.evalElement, Match.askBinding, hvalues]
    exact .ok trivial
  · have hne := Scope.infer_ne_list (fun x hx => ha ⟨x, hx⟩) h
    rw [Atom.evalElement, Traced.result_bind]
    · exact (outcome_eval hΓ hm h hne).bind fun _ _ => .ok trivial
    · exact fun x hx => ha ⟨x, hx⟩

theorem outcome_evalList {as : List Atom} {ts : List ValueType} (h : as.mapM Γ.infer = .ok ts) :
    Outcome (fun _ => True) (EvalError.Excused (as.flatMap Atom.parts) (m.Bounded d))
      (Atom.evalList Γ.vars m as).result := by
  rw [mapM_eq_ok_iff] at h
  induction h with
  | nil => exact .ok trivial
  | @cons t a ts as ha _ ih =>
    simp only [Atom.evalList, Traced.result_bind]
    refine ((outcome_evalElement hΓ hm ha).subset fun c hc => ?_).bind fun values _ => ?_
    · simp [hc]
    refine (ih.subset fun c hc => ?_).bind fun others _ => .ok trivial
    rw [List.flatMap_cons]
    exact List.mem_append_right _ hc

theorem outcome_evalInteger {a : Atom} (h : Γ.checkInteger a = .ok ()) :
    Outcome (fun _ => True) (EvalError.Excused a.parts (m.Bounded d))
      (a.evalInteger Γ.vars m).result := by
  simp only [Scope.checkInteger, bind_eq_ok_iff, Scope.requireInteger_eq_ok_iff] at h
  obtain ⟨t, ha, rfl⟩ := h
  simp only [Atom.evalInteger, Traced.result_bind, Traced.result_liftM]
  exact (outcome_eval hΓ hm ha (by simp)).bind fun v hv => outcome_asInteger a hv

/-! ### Conditions -/

/-- Lists that may be compared evaluate, unless they are excused. -/
theorem outcome_evalLists {l r : List Atom} (h : Γ.checkComparable l r = .ok ())
    (f : List Value → List Value → Bool) :
    Outcome (fun _ => True) (EvalError.Excused ((l ++ r).flatMap Atom.parts) (m.Bounded d))
      (do
        let ls ← Atom.evalList Γ.vars m l
        let rs ← Atom.evalList Γ.vars m r
        return f ls rs : Evaluation Bool).result := by
  simp only [Scope.checkComparable, bind_eq_ok_iff] at h
  obtain ⟨-, -, ts, hl, us, hr, -⟩ := h
  rw [List.flatMap_append]
  simp only [Traced.result_bind]
  refine ((outcome_evalList hΓ hm hl).subset (List.subset_append_left ..)).bind fun ls _ => ?_
  refine ((outcome_evalList hΓ hm hr).subset (List.subset_append_right ..)).bind fun rs _ => ?_
  exact .ok trivial

/-- **A condition that the type check admits has a truth value**, unless it is excused. -/
theorem outcome_evalCondition {c : Condition} (h : Γ.checkCondition c = .ok ()) :
    Outcome (fun _ => True) (EvalError.Excused c.atoms (m.Bounded d)) (c.eval Γ.vars m).result := by
  induction c with
  | is test x =>
    simp only [Scope.checkCondition, Scope.checkHolds, bind_eq_ok_iff, Scope.typeOf_eq_ok_iff] at h
    obtain ⟨t, hx, -⟩ := h
    rw [Condition.eval, Traced.result_bind]
    exact (outcome_askBinding hΓ hm hx _).bind fun _ _ => .ok trivial
  | edge s t l => exact .ok trivial
  | eq l r => exact outcome_evalLists hΓ hm h fun ls rs => ls = rs
  | neq l r => exact outcome_evalLists hΓ hm h fun ls rs => ls ≠ rs
  | cmp op l r =>
    simp only [Scope.checkCondition, bind_eq_ok_iff] at h
    obtain ⟨⟨⟩, hl, hr⟩ := h
    simp only [Condition.eval, Traced.result_bind]
    refine ((outcome_evalInteger hΓ hm hl).subset (List.subset_append_left ..)).bind fun i _ => ?_
    refine ((outcome_evalInteger hΓ hm hr).subset (List.subset_append_right ..)).bind fun j _ => ?_
    exact .ok trivial
  | not c ih =>
    rw [Condition.eval, Traced.result_bind]
    exact (ih h).bind fun _ _ => .ok trivial
  | and c c' ih ih' =>
    simp only [Scope.checkCondition, bind_eq_ok_iff] at h
    obtain ⟨⟨⟩, hc, hc'⟩ := h
    rw [Condition.eval, Traced.result_bind]
    refine ((ih hc).subset (List.subset_append_left ..)).bind fun b _ => ?_
    cases b with
    | false => exact .ok trivial
    | true => exact (ih' hc').subset (List.subset_append_right ..)
  | or c c' ih ih' =>
    simp only [Scope.checkCondition, bind_eq_ok_iff] at h
    obtain ⟨⟨⟩, hc, hc'⟩ := h
    rw [Condition.eval, Traced.result_bind]
    refine ((ih hc).subset (List.subset_append_left ..)).bind fun b _ => ?_
    cases b with
    | false => exact (ih' hc').subset (List.subset_append_right ..)
    | true => exact .ok trivial

end Sound

/-! ### Rules -/

/-- The atoms that the condition of a rule evaluates. -/
def Rule.conditionAtoms (r : Rule) : List Atom :=
  match r.condition with
  | some c => c.atoms
  | none => []

/-- What types guarantee under a match `m` for a rule that the declaration `d` lowers to. -/
structure Rule.TypeSound (r : Rule) (d : RuleDecl) (m : Match) : Prop where
  /-- The condition has a truth value, or there is a division by zero or an overflow. -/
  condition : (∃ b, (r.evalCondition m).result = .ok b) ∨
    (r.evalCondition m).result = .error .divisionByZero ∨
    (r.evalCondition m).result = .error .overflow
  /-- There is no division by zero without a division. -/
  division : (r.evalCondition m).result = .error .divisionByZero →
    ∃ a b, .arith .div a b ∈ r.conditionAtoms
  /-- Without arithmetic the condition has a truth value, if degrees and lengths are bounded. -/
  total : m.Bounded d → (∀ a ∈ r.conditionAtoms, ¬ a.IsArithmetic) →
    ∃ b, (r.evalCondition m).result = .ok b
  /-- An atom with a type other than that of lists has a value of this type, or there is a division
  by zero or an overflow. -/
  atom : ∃ s, (Lowering.sides d).result = .ok s ∧ r.vars = s.vars ∧
    ∀ a t, s.scope.infer a = .ok t → t ≠ .list →
    (∃ v, (a.eval r.vars m).result = .ok v ∧ t.Admits [v]) ∨
    (a.eval r.vars m).result = .error .divisionByZero ∨
      (a.eval r.vars m).result = .error .overflow

/-- The condition of a rule evaluates, unless it is excused. -/
theorem outcome_ruleCondition {d : RuleDecl} {r : Rule} (h : d.lower = .ok r) {m : Match}
    (hm : m.WellTyped d) :
    Outcome (fun _ => True) (EvalError.Excused r.conditionAtoms (m.Bounded d))
      (r.evalCondition m).result := by
  obtain ⟨s, hs, δ, -, hc, rfl⟩ := RuleDecl.lower_eq_ok_iff.mp h
  rw [Rule.evalCondition, Rule.conditionAtoms]
  cases hcond : d.condition with
  | none => exact .ok trivial
  | some c =>
    rw [hcond] at hc
    simp only [Lowering.checkCondition, Traced.result_bind_eq_ok_iff, Traced.result_liftM] at hc
    obtain ⟨⟨⟩, hc, -⟩ := hc
    exact outcome_evalCondition (Lowering.built_of_sides hs).scope_of hm hc

/-- **Type soundness**: under a well-typed match, the condition of a rule that a declaration lowers
to fails at most with a division by zero or an overflow, and so does every atom that has a type. -/
theorem typeSound_of_lower {d : RuleDecl} {r : Rule} (h : d.lower = .ok r) {m : Match}
    (hm : m.WellTyped d) : r.TypeSound d m := by
  have houtcome := outcome_ruleCondition h hm
  obtain ⟨s, hs, δ, -, -, rfl⟩ := RuleDecl.lower_eq_ok_iff.mp h
  refine ⟨?_, fun hdiv => ?_, fun hb has => houtcome.exists_ok hb has, s, hs, rfl,
    fun a t ha ht => ?_⟩
  · rcases houtcome.ok_or_error with ⟨b, hb, -⟩ | herror
    · exact Or.inl ⟨b, hb⟩
    · exact Or.inr herror
  · rw [hdiv] at houtcome
    exact houtcome.exists_division
  · exact (outcome_eval (Lowering.built_of_sides hs).scope_of hm ha ht).ok_or_error

/-- A rule that compares a quotient with the length of a string. -/
def compareQuotient : RuleDecl where
  name := "compare"
  vars := [⟨"x", .integer⟩, ⟨"s", .string⟩, ⟨"l", .list⟩]
  lhs := { nodes := [{ id := "a", label := ⟨.none, [.var "x", .var "l"]⟩ }] }
  rhs := { nodes := [{ id := "a", label := ⟨.none, [.length "s"]⟩ }] }
  condition := some (.and
    (.cmp .less (.arith .div (.var "x") (.degree .outgoing "a")) (.length "s"))
    (.neq [.var "l"] [.concat (.var "s") (.str "!")]))

/-- A match for `compareQuotient`. -/
def compareQuotientMatch : Match where
  binding x := if x = "x" then some [.int 6] else if x = "s" then some [.str "abc"] else some []
  degree _ _ := some 3
  hasEdge _ _ _ := false

theorem compareQuotientMatch_wellTyped : compareQuotientMatch.WellTyped compareQuotient where
  binding v hv := by
    simp only [compareQuotient, List.mem_cons, List.not_mem_nil, or_false] at hv
    rcases hv with rfl | rfl | rfl
    · exact ⟨[.int 6], rfl, trivial⟩
    · exact ⟨[.str "abc"], rfl, trivial⟩
    · exact ⟨[], rfl, trivial⟩
  degree _ _ _ := ⟨3, rfl⟩

/-- The rule that compares a quotient is an instance. -/
theorem typeSound_compareQuotient :
    ∃ r, compareQuotient.lower = .ok r ∧ compareQuotientMatch.WellTyped compareQuotient ∧
      r.TypeSound compareQuotient compareQuotientMatch :=
  ⟨_, rfl, compareQuotientMatch_wellTyped, typeSound_of_lower rfl compareQuotientMatch_wellTyped⟩

end GraphTransform
