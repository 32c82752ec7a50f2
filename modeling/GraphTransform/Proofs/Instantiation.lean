import GraphTransform.Condition.Eval

/-!
# Values in place of a variable

A variable that is bound can be replaced by constants for its values (`Condition.instantiate`). What
that means depends on where it stands. As an element of a list it is replaced by one constant for
each value, so by none if there are no values. Inside an atom only a single value can stand for it,
and without exactly one the variable stays, since it has no value there. Where a query is about the
variable itself, in its length, in a test, or in the label of an edge, it stays as well.

The instance of a condition evaluates to the same truth value, or fails with an error of the same
kind (`Condition.sameOutcome_instantiate`). It puts fewer queries, and an error about an operand
shows the text of the operand, in which the variable is replaced.

Two computations with the same outcome are compared by `Traced.SameOutcome`, which sequencing keeps,
so that the proof follows the evaluation step by step. Lists need one more fact: the elements that
replace an element stand for the same values together (`sameOutcome_evalList_element`).
-/

namespace GraphTransform

/-! ### Statements -/

/-- The constant for a value. -/
def Value.literal : Value → Atom
  | .int i => .int i
  | .str s => .str s

namespace Atom

/-- What stands for the variable `x` inside an atom: the constant for its value if there is exactly
one, and else the variable. -/
def standIn (x : String) : List Value → Atom
  | [v] => v.literal
  | _ => .var x

/-- The atom with values in place of the variable `x`. -/
def instantiate (x : String) (values : List Value) : Atom → Atom
  | .var y => if y = x then standIn x values else .var y
  | .neg a => .neg (a.instantiate x values)
  | .arith op a b => .arith op (a.instantiate x values) (b.instantiate x values)
  | .concat a b => .concat (a.instantiate x values) (b.instantiate x values)
  | a => a

/-- The elements that take the place of an element of a list. -/
def instantiateElement (x : String) (values : List Value) : Atom → List Atom
  | .var y => if y = x then values.map Value.literal else [.var y]
  | a => [a.instantiate x values]

end Atom

/-- The condition with values in place of the variable `x` where it stands for values. -/
def Condition.instantiate (x : String) (values : List Value) : Condition → Condition
  | .eq l r =>
    .eq (l.flatMap (Atom.instantiateElement x values))
      (r.flatMap (Atom.instantiateElement x values))
  | .neq l r =>
    .neq (l.flatMap (Atom.instantiateElement x values))
      (r.flatMap (Atom.instantiateElement x values))
  | .cmp op l r => .cmp op (l.instantiate x values) (r.instantiate x values)
  | .not c => .not (c.instantiate x values)
  | .and c d => .and (c.instantiate x values) (d.instantiate x values)
  | .or c d => .or (c.instantiate x values) (d.instantiate x values)
  | c => c

/-- The errors are the same but for the text of an operand that is no integer or no string. -/
inductive EvalError.SameKind : EvalError → EvalError → Prop where
  /-- The same error. -/
  | refl (e : EvalError) : SameKind e e
  /-- Some operand is no integer. -/
  | notInteger (item item' : String) : SameKind (.notInteger item) (.notInteger item')
  /-- Some operand is no string. -/
  | notString (item item' : String) : SameKind (.notString item) (.notString item')

/-- Both computations yield the same value, or fail with errors of the same kind. -/
inductive Traced.SameOutcome {ω α : Type} (x y : Traced ω EvalError α) : Prop where
  /-- They yield the same value. -/
  | ok {a : α} (hx : x.result = .ok a) (hy : y.result = .ok a)
  /-- They fail with errors of the same kind. -/
  | error {e e' : EvalError} (hx : x.result = .error e) (hy : y.result = .error e')
      (h : e.SameKind e')

/-! ### Computations -/

namespace Traced.SameOutcome

variable {ω α β : Type} {x y : Traced ω EvalError α} {f g : α → Traced ω EvalError β}

theorem of_result (h : x.result = y.result) : x.SameOutcome y := by
  cases hy : y.result with
  | ok a => exact .ok (h.trans hy) hy
  | error e => exact .error (h.trans hy) hy (.refl e)

theorem refl (x : Traced ω EvalError α) : x.SameOutcome x := of_result rfl

/-- Sequences have the same outcome if their first parts have, and what follows each value has. -/
theorem bind (hxy : x.SameOutcome y) (hfg : ∀ a, (f a).SameOutcome (g a)) :
    (x >>= f).SameOutcome (y >>= g) := by
  cases hxy with
  | @ok a hx hy =>
    have hf : (x >>= f).result = (f a).result := by
      rw [result_bind, hx]
      rfl
    have hg : (y >>= g).result = (g a).result := by
      rw [result_bind, hy]
      rfl
    cases hfg a with
    | ok hfa hga => exact .ok (hf.trans hfa) (hg.trans hga)
    | error hfa hga h => exact .error (hf.trans hfa) (hg.trans hga) h
  | @error e e' hx hy h =>
    refine .error ?_ ?_ h
    · rw [result_bind, hx]
      rfl
    · rw [result_bind, hy]
      rfl

end Traced.SameOutcome

/-! ### Atoms -/

section Evaluation

variable {vs : Variables} {m : Match}

namespace Atom

theorem eval_literal (v : Value) : v.literal.eval vs m = pure v := by
  cases v <;> rfl

theorem evalElement_literal (v : Value) : v.literal.evalElement vs m = pure [v] := by
  cases v <;> rfl

/-- The constants for some values stand for these values. -/
theorem evalList_literals (values : List Value) :
    evalList vs m (values.map Value.literal) = pure values := by
  induction values with
  | nil => rfl
  | cons v values ih =>
    rw [List.map_cons, evalList, evalElement_literal, ih]
    rfl

/-- Lists one after the other stand for the values of both. -/
theorem evalList_append (as bs : List Atom) : evalList vs m (as ++ bs) = do
    let ls ← evalList vs m as
    let rs ← evalList vs m bs
    return ls ++ rs := by
  induction as with
  | nil => simp [evalList]
  | cons a as ih =>
    simp only [List.cons_append, evalList, ih, bind_assoc, pure_bind, List.append_assoc]

theorem evalList_singleton (a : Atom) : evalList vs m [a] = a.evalElement vs m := by
  simp [evalList]

/-- An operand is an integer or not, whatever its text is. -/
theorem sameOutcome_asInteger (a a' : Atom) (v : Value) :
    (liftM (a.asInteger v) : Evaluation Int64).SameOutcome (liftM (a'.asInteger v)) := by
  cases v with
  | int i => exact .refl _
  | str s => exact .error rfl rfl (.notInteger _ _)

/-- An operand is a string or not, whatever its text is. -/
theorem sameOutcome_asString (a a' : Atom) (v : Value) :
    (liftM (a.asString v) : Evaluation String).SameOutcome (liftM (a'.asString v)) := by
  cases v with
  | int i => exact .error rfl rfl (.notString _ _)
  | str s => exact .refl _

variable {x : String} {values : List Value} (hx : m.binding x = some values)

include hx

/-- What stands for a variable inside an atom has its value, or fails as the variable does. -/
theorem result_eval_standIn :
    ((standIn x values).eval vs m).result = ((var x).eval vs m).result := by
  have hvar : ((var x).eval vs m).result = single x values := by
    rw [eval, Traced.result_bind, Match.askBinding, hx]
    rfl
  cases values with
  | nil => rfl
  | cons v rest =>
    cases rest with
    | nil => rw [hvar, standIn, eval_literal, Traced.result_pure, single]
    | cons => rfl

theorem sameOutcome_eval_instantiate (a : Atom) :
    (a.eval vs m).SameOutcome ((a.instantiate x values).eval vs m) := by
  induction a with
  | var y =>
    rw [instantiate]
    split
    · next hy =>
      subst hy
      exact .of_result (result_eval_standIn hx).symm
    · exact .refl _
  | neg a ih => exact .bind ih fun v => .bind (sameOutcome_asInteger a _ v) fun i => .refl _
  | arith op a b iha ihb =>
    refine .bind iha fun v => .bind (sameOutcome_asInteger a _ v) fun i => ?_
    exact .bind ihb fun w => .bind (sameOutcome_asInteger b _ w) fun j => .refl _
  | concat a b iha ihb =>
    refine .bind iha fun v => .bind (sameOutcome_asString a _ v) fun s => ?_
    exact .bind ihb fun w => .bind (sameOutcome_asString b _ w) fun t => .refl _
  | _ => exact .refl _

theorem sameOutcome_evalInteger (a : Atom) :
    (a.evalInteger vs m).SameOutcome ((a.instantiate x values).evalInteger vs m) :=
  .bind (sameOutcome_eval_instantiate hx a) fun v => sameOutcome_asInteger a _ v

/-- **The elements that replace an element stand for the same values.** -/
theorem sameOutcome_evalList_element (a : Atom) :
    (a.evalElement vs m).SameOutcome (evalList vs m (a.instantiateElement x values)) := by
  have hsingle : (do let v ← a.eval vs m; return [v] : Evaluation (List Value)).SameOutcome
      (do let v ← (a.instantiate x values).eval vs m; return [v]) :=
    .bind (sameOutcome_eval_instantiate hx a) fun v => .refl _
  cases a with
  | var y =>
    rw [instantiateElement]
    split
    · next hy =>
      subst hy
      rw [evalList_literals, evalElement, Match.askBinding, hx]
      exact .ok rfl rfl
    · rw [evalList_singleton]
      exact .refl _
  | _ =>
    rw [instantiateElement, evalList_singleton]
    · exact hsingle
    · exact fun y hy => by cases hy

theorem sameOutcome_evalList (as : List Atom) :
    (evalList vs m as).SameOutcome (evalList vs m (as.flatMap (instantiateElement x values))) := by
  induction as with
  | nil => exact .refl _
  | cons a rest ih =>
    rw [List.flatMap_cons, evalList_append]
    exact .bind (sameOutcome_evalList_element hx a) fun ls => .bind ih fun rs => .refl _

end Atom

/-! ### Conditions -/

/-- **Values may take the place of a variable that is bound to them**: the condition evaluates to
the same truth value, or fails with an error of the same kind. -/
theorem Condition.sameOutcome_instantiate {x : String} {values : List Value}
    (hx : m.binding x = some values) (c : Condition) :
    (c.eval vs m).SameOutcome ((c.instantiate x values).eval vs m) := by
  induction c with
  | is test y => exact .refl _
  | edge s t l => exact .refl _
  | eq l r =>
    exact .bind (Atom.sameOutcome_evalList hx l) fun ls =>
      .bind (Atom.sameOutcome_evalList hx r) fun rs => .refl _
  | neq l r =>
    exact .bind (Atom.sameOutcome_evalList hx l) fun ls =>
      .bind (Atom.sameOutcome_evalList hx r) fun rs => .refl _
  | cmp op l r =>
    exact .bind (Atom.sameOutcome_evalInteger hx l) fun i =>
      .bind (Atom.sameOutcome_evalInteger hx r) fun j => .refl _
  | not c ih => exact .bind ih fun b => .refl _
  | and c d ihc ihd =>
    refine .bind ihc fun b => ?_
    cases b with
    | true => exact ihd
    | false => exact .refl _
  | or c d ihc ihd =>
    refine .bind ihc fun b => ?_
    cases b with
    | true => exact .refl _
    | false => exact ihd

end Evaluation

example : (Condition.cmp .greater (.neg (.var "x")) (.length "x")).instantiate "x" [.str "7"] =
    .cmp .greater (.neg (.str "7")) (.length "x") := rfl

/-- A match that binds all variables to the same two values. -/
def oneAndTwoMatch : Match where
  binding _ := some [.int 1, .int 2]
  degree _ _ := none
  hasEdge _ _ _ := false

/-- A condition with the variable `x` as an element of a list, in its length and in an integer
comparison. -/
def xIsOneAndTwo : Condition :=
  .and (.eq [.var "x", .length "x"] [.int 1, .int 2, .int 2]) (.cmp .less (.int 0) (.var "x"))

/-- Two values replace the element of the list. The operand of the order relation stays, which has
no value: both conditions fail with the same error. -/
theorem Condition.sameOutcome_instantiate_xIsOneAndTwo :
    oneAndTwoMatch.binding "x" = some [.int 1, .int 2] ∧
    xIsOneAndTwo.instantiate "x" [.int 1, .int 2] =
      .and (.eq [.int 1, .int 2, .length "x"] [.int 1, .int 2, .int 2])
        (.cmp .less (.int 0) (.var "x")) ∧
    (xIsOneAndTwo.eval {} oneAndTwoMatch).SameOutcome
      ((xIsOneAndTwo.instantiate "x" [.int 1, .int 2]).eval {} oneAndTwoMatch) :=
  ⟨rfl, rfl, sameOutcome_instantiate rfl xIsOneAndTwo⟩

end GraphTransform
