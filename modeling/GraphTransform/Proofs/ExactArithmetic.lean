import GraphTransform.Condition.Eval

/-!
# Exact arithmetic

An atom built from operands by negation and the four operations has an exact value, computed with
unbounded integers and with quotients rounded towards zero (`Atom.exactValue?`), unless something is
divided by zero. Evaluation computes with words of 64 bits. It yields the exact value if that of
every subexpression fits (`Atom.StaysInRange`). Otherwise it fails where the first subexpression
goes wrong, in the order in which they are computed (`Atom.postorder`): with a division by zero, or
with an overflow if the exact value does not fit (`Atom.offence?`). `Atom.evaluatesExactly` states
this of every atom whose operands have integers as values.

The order counts, since several subexpressions may go wrong, and only the one that is computed first
is reported. All that is computed before it has exact values that fit.
-/

namespace GraphTransform

/-! ### Exact values -/

/-- The integer fits into 64 bits: it is at least the negation of the 63rd power of 2, and less than
this power. -/
def InRange (n : Int) : Prop := -0x8000000000000000 ≤ n ∧ n < 0x8000000000000000

instance (n : Int) : Decidable (InRange n) := inferInstanceAs (Decidable (_ ∧ _))

/-- The exact result of an operation; there is no quotient by zero. -/
def ArithOp.exactResult? (op : ArithOp) (i j : Int) : Option Int :=
  match op with
  | .add => some (i + j)
  | .sub => some (i - j)
  | .mul => some (i * j)
  | .div => if j = 0 then none else some (i.tdiv j)

namespace Atom

/-- The atoms from which an atom is built by negation and the four operations. -/
def operands : Atom → List Atom
  | .neg a => a.operands
  | .arith _ a b => a.operands ++ b.operands
  | a => [a]

/-- The subexpressions in the order in which they are computed: operands from left to right, and
then the operation. -/
def postorder : Atom → List Atom
  | .neg a => a.postorder ++ [.neg a]
  | .arith op a b => a.postorder ++ (b.postorder ++ [.arith op a b])
  | a => [a]

/-- The exact value, given the values of the operands. -/
def exactValue? (ρ : Atom → Int64) : Atom → Option Int
  | .neg a => (a.exactValue? ρ).map (-·)
  | .arith op a b =>
    (a.exactValue? ρ).bind fun i => (b.exactValue? ρ).bind fun j => op.exactResult? i j
  | a => some (ρ a).toInt

/-- The atom is a quotient by zero. -/
def dividesByZero (ρ : Atom → Int64) : Atom → Bool
  | .arith .div _ b => b.exactValue? ρ = some 0
  | _ => false

/-- What goes wrong in an operation itself, if its operands have values: it divides by zero, or its
value does not fit. -/
def offence? (ρ : Atom → Int64) (a : Atom) : Option EvalError :=
  if a.dividesByZero ρ then some .divisionByZero
  else if ∃ n ∈ a.exactValue? ρ, ¬ InRange n then some .overflow
  else none

/-- Nothing is divided by zero in the operation itself, and its exact value fits. -/
structure Fits (ρ : Atom → Int64) (a : Atom) : Prop where
  /-- The divisor, if there is one, is not zero. -/
  divisor : a.dividesByZero ρ = false
  /-- There is an exact value, and it fits. -/
  inRange : ∃ n, a.exactValue? ρ = some n ∧ InRange n

/-- No divisor is zero, and the exact values of all subexpressions fit. -/
def StaysInRange (ρ : Atom → Int64) (a : Atom) : Prop := ∀ s ∈ a.postorder, s.Fits ρ

/-- How an atom is evaluated, given the values of its operands. -/
structure EvaluatesExactly (a : Atom) (vs : Variables) (m : Match) (ρ : Atom → Int64) : Prop where
  /-- It has a value exactly if everything stays in range, and the value is the exact one. -/
  ok_iff : ∀ v, (a.eval vs m).result = .ok v ↔
    a.StaysInRange ρ ∧ ∃ n : Int64, v = .int n ∧ a.exactValue? ρ = some n.toInt
  /-- Otherwise it fails with what goes wrong in the first subexpression in which something does. -/
  error_iff : ∀ e, (a.eval vs m).result = .error e ↔ a.postorder.findSome? (offence? ρ) = some e

end Atom

/-! ### Operations -/

theorem inRange_toInt (i : Int64) : InRange i.toInt := ⟨Int64.le_toInt i, Int64.toInt_lt i⟩

/-- The word for an exact result, if there is one and it fits. -/
def exactWord : Option Int → Except EvalError Int64
  | some n => checked n
  | none => .error .divisionByZero

theorem checked_of_inRange {n : Int} (h : InRange n) :
    ∃ i : Int64, n = i.toInt ∧ checked n = .ok i := by
  cases hn : toInt64? n with
  | some i => exact ⟨i, (toInt64?_eq_some_iff.mp hn).symm, by rw [checked, hn]⟩
  | none =>
    obtain ⟨hle, hlt⟩ := h
    rcases toInt64?_eq_none_iff.mp hn with hn | hn <;> omega

theorem checked_of_not_inRange {n : Int} (h : ¬ InRange n) : checked n = .error .overflow := by
  have hn : toInt64? n = none := by
    rw [toInt64?_eq_none_iff]
    unfold InRange at h
    omega
  rw [checked, hn]

/-- An operation on words takes the exact result back into a word. -/
theorem ArithOp.apply_eq (op : ArithOp) (i j : Int64) :
    op.apply i j = exactWord (op.exactResult? i.toInt j.toInt) := by
  cases op with
  | div =>
    have hzero : j.toInt = 0 ↔ j = 0 := by rw [← Int64.toInt_zero, Int64.toInt_inj]
    by_cases hj : j = 0
    · rw [apply, exactResult?, if_pos hj, if_pos (hzero.mpr hj), exactWord]
    · rw [apply, exactResult?, if_neg hj, if_neg (mt hzero.mp hj), exactWord]
  | _ => rfl

namespace Atom

variable {ρ : Atom → Int64} {a b : Atom} {vs : Variables} {m : Match}

/-! ### Offences -/

theorem mem_postorder_self (a : Atom) : a ∈ a.postorder := by
  cases a <;> simp [postorder]

/-- In a negation, nothing is divided by zero. -/
theorem dividesByZero_neg_iff {n : Int} (hn : a.exactValue? ρ = some n) :
    (neg a).dividesByZero ρ = true ↔ (neg a).exactValue? ρ = none := by
  simp [dividesByZero, exactValue?, hn]

/-- An operation on operands with values has no value exactly if it divides by zero. -/
theorem dividesByZero_arith_iff {op : ArithOp} {i j : Int} (hi : a.exactValue? ρ = some i)
    (hj : b.exactValue? ρ = some j) :
    (arith op a b).dividesByZero ρ = true ↔ (arith op a b).exactValue? ρ = none := by
  cases op <;> simp [dividesByZero, exactValue?, ArithOp.exactResult?, hi, hj]

theorem dividesByZero_eq_false {n : Int} (hdiv : a.dividesByZero ρ = true ↔ a.exactValue? ρ = none)
    (hn : a.exactValue? ρ = some n) : a.dividesByZero ρ = false := by
  rw [← Bool.not_eq_true, hdiv, hn]
  exact Option.some_ne_none n

theorem offence?_of_dividesByZero (h : a.dividesByZero ρ = true) :
    a.offence? ρ = some .divisionByZero :=
  if_pos h

/-- Where nothing is divided by zero, only a value that does not fit goes wrong. -/
theorem offence?_of_exact {n : Int} (hdiv : a.dividesByZero ρ = false)
    (hn : a.exactValue? ρ = some n) :
    a.offence? ρ = if InRange n then none else some .overflow := by
  simp [offence?, hdiv, hn]

theorem Fits.offence?_eq_none (h : a.Fits ρ) : a.offence? ρ = none := by
  obtain ⟨n, hn, hrange⟩ := h.inRange
  rw [offence?_of_exact h.divisor hn, if_pos hrange]

/-- An operation in which nothing goes wrong fits, if it has a value unless it divides by zero. -/
theorem fits_of_offence? (hdiv : a.dividesByZero ρ = true ↔ a.exactValue? ρ = none)
    (h : a.offence? ρ = none) : a.Fits ρ := by
  cases hn : a.exactValue? ρ with
  | none =>
    rw [offence?_of_dividesByZero (hdiv.mpr hn)] at h
    cases h
  | some n =>
    have hnot := dividesByZero_eq_false hdiv hn
    rw [offence?_of_exact hnot hn] at h
    by_cases hrange : InRange n
    · exact ⟨hnot, n, hn, hrange⟩
    · rw [if_neg hrange] at h
      cases h

/-- An operand always fits. -/
theorem fits_of_operand (hdiv : a.dividesByZero ρ = false)
    (hexact : a.exactValue? ρ = some (ρ a).toInt) : a.Fits ρ :=
  ⟨hdiv, _, hexact, inRange_toInt _⟩

/-- If nothing goes wrong anywhere, everything stays in range. -/
theorem staysInRange_of_offence? (h : ∀ s ∈ a.postorder, s.offence? ρ = none) :
    a.StaysInRange ρ := by
  induction a with
  | neg a ih =>
    obtain ⟨ha, hself⟩ := List.forall_mem_append.mp h
    obtain ⟨n, hn, -⟩ := (ih ha a a.mem_postorder_self).inRange
    have hfits := fits_of_offence? (dividesByZero_neg_iff hn) (hself _ List.mem_cons_self)
    exact List.forall_mem_append.mpr ⟨ih ha, List.forall_mem_singleton.mpr hfits⟩
  | arith op a b iha ihb =>
    obtain ⟨ha, hrest⟩ := List.forall_mem_append.mp h
    obtain ⟨hb, hself⟩ := List.forall_mem_append.mp hrest
    obtain ⟨i, hi, -⟩ := (iha ha a a.mem_postorder_self).inRange
    obtain ⟨j, hj, -⟩ := (ihb hb b b.mem_postorder_self).inRange
    have hfits := fits_of_offence? (dividesByZero_arith_iff hi hj) (hself _ List.mem_cons_self)
    have hrest := List.forall_mem_append.mpr ⟨ihb hb, List.forall_mem_singleton.mpr hfits⟩
    exact List.forall_mem_append.mpr ⟨iha ha, hrest⟩
  | _ => exact List.forall_mem_singleton.mpr (fits_of_operand rfl rfl)

/-- **Everything stays in range exactly if nothing goes wrong.** -/
theorem staysInRange_iff : a.StaysInRange ρ ↔ a.postorder.findSome? (offence? ρ) = none := by
  rw [List.findSome?_eq_none_iff]
  exact ⟨fun h s hs => (h s hs).offence?_eq_none, staysInRange_of_offence?⟩

/-! ### Evaluation -/

theorem result_eval_neg {i : Int64} (h : (a.eval vs m).result = .ok (.int i)) :
    ((neg a).eval vs m).result = Value.int <$> checked (-i.toInt) := by
  rw [eval]
  simp only [Traced.result_bind, h]
  rfl

theorem result_eval_neg_of_error {e : EvalError} (h : (a.eval vs m).result = .error e) :
    ((neg a).eval vs m).result = .error e := by
  rw [eval, Traced.result_bind, h]
  rfl

theorem result_eval_arith {op : ArithOp} {i j : Int64} (ha : (a.eval vs m).result = .ok (.int i))
    (hb : (b.eval vs m).result = .ok (.int j)) :
    ((arith op a b).eval vs m).result = Value.int <$> op.apply i j := by
  rw [eval]
  simp only [Traced.result_bind, ha, hb]
  rfl

theorem result_eval_arith_of_error_left {op : ArithOp} {e : EvalError}
    (ha : (a.eval vs m).result = .error e) : ((arith op a b).eval vs m).result = .error e := by
  rw [eval, Traced.result_bind, ha]
  rfl

theorem result_eval_arith_of_error_right {op : ArithOp} {i : Int64} {e : EvalError}
    (ha : (a.eval vs m).result = .ok (.int i)) (hb : (b.eval vs m).result = .error e) :
    ((arith op a b).eval vs m).result = .error e := by
  rw [eval]
  simp only [Traced.result_bind, ha, hb]
  rfl

/-- Either nothing goes wrong, and the atom has its exact value, or it fails with the first thing
that goes wrong. -/
inductive Settled (a : Atom) (vs : Variables) (m : Match) (ρ : Atom → Int64) : Prop where
  /-- Nothing goes wrong. -/
  | value {n : Int64} (hfirst : a.postorder.findSome? (offence? ρ) = none)
      (hexact : a.exactValue? ρ = some n.toInt) (hresult : (a.eval vs m).result = .ok (.int n))
  /-- Something goes wrong. -/
  | error {e : EvalError} (hfirst : a.postorder.findSome? (offence? ρ) = some e)
      (hresult : (a.eval vs m).result = .error e)

/-- Where nothing goes wrong in the operands, the operation itself decides. -/
theorem settled_of_operation {before : List Atom} (hpost : a.postorder = before ++ [a])
    (hbefore : before.findSome? (offence? ρ) = none)
    (hdiv : a.dividesByZero ρ = true ↔ a.exactValue? ρ = none)
    (hresult : (a.eval vs m).result = Value.int <$> exactWord (a.exactValue? ρ)) :
    a.Settled vs m ρ := by
  have hfirst : a.postorder.findSome? (offence? ρ) = a.offence? ρ := by
    rw [hpost, List.findSome?_append, hbefore, Option.none_or, List.findSome?_singleton]
  cases hn : a.exactValue? ρ with
  | none =>
    rw [hn] at hresult
    exact .error (hfirst.trans (offence?_of_dividesByZero (hdiv.mpr hn))) hresult
  | some n =>
    rw [offence?_of_exact (dividesByZero_eq_false hdiv hn) hn] at hfirst
    rw [hn] at hresult
    by_cases hrange : InRange n
    · obtain ⟨i, rfl, hi⟩ := checked_of_inRange hrange
      rw [exactWord, hi] at hresult
      exact .value (hfirst.trans (if_pos hrange)) hn hresult
    · rw [exactWord, checked_of_not_inRange hrange] at hresult
      exact .error (hfirst.trans (if_neg hrange)) hresult

/-- Where something goes wrong in the operands, the operation is not reached. -/
theorem settled_of_error {before after : List Atom} {e : EvalError}
    (hpost : a.postorder = before ++ after) (hfirst : before.findSome? (offence? ρ) = some e)
    (hresult : (a.eval vs m).result = .error e) : a.Settled vs m ρ := by
  refine .error ?_ hresult
  rw [hpost, List.findSome?_append, hfirst, Option.some_or]

/-- An operand has its value. -/
theorem settled_of_operand (hpost : a.postorder = [a]) (hdiv : a.dividesByZero ρ = false)
    (hexact : a.exactValue? ρ = some (ρ a).toInt)
    (hresult : (a.eval vs m).result = .ok (.int (ρ a))) : a.Settled vs m ρ := by
  refine .value ?_ hexact hresult
  rw [hpost, List.findSome?_singleton, (fits_of_operand hdiv hexact).offence?_eq_none]

theorem settled_eval (h : ∀ o ∈ a.operands, (o.eval vs m).result = .ok (.int (ρ o))) :
    a.Settled vs m ρ := by
  induction a with
  | neg a ih =>
    cases ih h with
    | @value i hfirst hexact hresult =>
      apply settled_of_operation rfl hfirst (dividesByZero_neg_iff hexact)
      rw [result_eval_neg hresult, exactValue?, hexact]
      rfl
    | error hfirst hresult => exact settled_of_error rfl hfirst (result_eval_neg_of_error hresult)
  | arith op a b iha ihb =>
    obtain ⟨ha, hb⟩ := List.forall_mem_append.mp h
    have hpost : (arith op a b).postorder = (a.postorder ++ b.postorder) ++ [arith op a b] :=
      (List.append_assoc ..).symm
    cases iha ha with
    | @value i hfirst hexact hresult =>
      cases ihb hb with
      | @value j hfirst' hexact' hresult' =>
        have hbefore : (a.postorder ++ b.postorder).findSome? (offence? ρ) = none := by
          rw [List.findSome?_append, hfirst, hfirst', Option.none_or]
        apply settled_of_operation hpost hbefore (dividesByZero_arith_iff hexact hexact')
        rw [result_eval_arith hresult hresult', op.apply_eq, exactValue?, hexact, hexact']
        rfl
      | @error e hfirst' hresult' =>
        have hbefore : (a.postorder ++ b.postorder).findSome? (offence? ρ) = some e := by
          rw [List.findSome?_append, hfirst, hfirst', Option.none_or]
        exact settled_of_error hpost hbefore (result_eval_arith_of_error_right hresult hresult')
    | error hfirst hresult =>
      exact settled_of_error rfl hfirst (result_eval_arith_of_error_left hresult)
  | _ => exact settled_of_operand rfl rfl rfl (h _ List.mem_cons_self)

/-- **An atom built from integers has its exact value if everything stays in range**, and otherwise
fails with the first thing that goes wrong: a division by zero, or an overflow. -/
theorem evaluatesExactly (h : ∀ o ∈ a.operands, (o.eval vs m).result = .ok (.int (ρ o))) :
    a.EvaluatesExactly vs m ρ := by
  cases settled_eval h with
  | @value n hfirst hexact hresult =>
    constructor
    · intro v
      rw [hresult]
      constructor
      · intro hv
        cases hv
        exact ⟨staysInRange_iff.mpr hfirst, n, rfl, hexact⟩
      · intro hv
        obtain ⟨-, n', rfl, hexact'⟩ := hv
        rw [hexact, Option.some.injEq, Int64.toInt_inj] at hexact'
        rw [hexact']
    · intro e
      rw [hresult, hfirst]
      exact iff_of_false (by simp) (by simp)
  | @error e hfirst hresult =>
    constructor
    · intro v
      rw [hresult, staysInRange_iff, hfirst]
      exact iff_of_false (by simp) (by simp)
    · intro e'
      rw [hresult, hfirst, Except.error.injEq, Option.some.injEq]

end Atom

/-- The least integer divided by `-x`, less the quotient of 1 by the number of edges that enter
`n`. -/
def leastOverNegated : Atom :=
  .arith .sub (.arith .div (.int (-9223372036854775808)) (.neg (.var "x")))
    (.arith .div (.int 1) (.degree .incoming "n"))

/-- A match that binds every variable to 1, and in which no edge enters any node. -/
def oneMatch : Match where
  binding _ := some [.int 1]
  degree _ _ := some 0
  hasEdge _ _ _ := false

/-- The values of the operands under this match. -/
def oneValue : Atom → Int64
  | .int i => i
  | .var _ => 1
  | _ => 0

/-- The first quotient, which does not fit, comes before the division by zero. -/
theorem Atom.evaluatesExactly_leastOverNegated :
    (∀ o ∈ leastOverNegated.operands, (o.eval .empty oneMatch).result = .ok (.int (oneValue o))) ∧
    leastOverNegated.exactValue? oneValue = none ∧
    (leastOverNegated.eval .empty oneMatch).result = .error .overflow := by
  have h : ∀ o ∈ leastOverNegated.operands, (o.eval .empty oneMatch).result =
      .ok (.int (oneValue o)) := by
    intro o ho
    simp only [leastOverNegated, operands, List.cons_append, List.nil_append, List.mem_cons,
      List.not_mem_nil, or_false] at ho
    rcases ho with rfl | rfl | rfl | rfl <;> rfl
  exact ⟨h, by decide +kernel, ((evaluatesExactly h).error_iff .overflow).mpr (by decide +kernel)⟩

end GraphTransform
