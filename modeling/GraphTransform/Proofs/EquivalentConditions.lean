import GraphTransform.Condition.Eval
import GraphTransform.Typing

/-!
# Equivalent conditions

Two conditions are equivalent (`Condition.Equivalent`) if nothing tells them apart: under every
match they have the same value or fail with the same error, after the same queries in the same
order, and in every scope the type check admits both or refuses both with the same error.

This is finer than having the same truth value. The laws of logic that hold for it are those that
leave every operand in its place: double negation, De Morgan's laws, associativity, and a comparison
instead of a negated one. Exchanging the operands of a conjunction, or leaving out one of two equal
operands, changes the queries.

A conjunction and a disjunction differ only in the truth value that decides them, so what holds for
both is stated once, for a connective (`Connective`).
-/

namespace GraphTransform

/-- The conditions have the same evaluation under every match, and the same type check in every
scope. -/
structure Condition.Equivalent (c d : Condition) : Prop where
  /-- The value or the error, and the queries in their order. -/
  eval : ∀ vs m, c.eval vs m = d.eval vs m
  /-- The type check passes, or fails with an error. -/
  check : ∀ Γ : Scope, Γ.checkCondition c = Γ.checkCondition d

/-- A way to combine two conditions. -/
inductive Connective where
  /-- Both conditions hold. -/
  | and
  /-- At least one of the conditions holds. -/
  | or
deriving DecidableEq

namespace Connective

/-- The combination of two conditions. -/
def join : Connective → Condition → Condition → Condition
  | .and => .and
  | .or => .or

/-- The value of the first operand with which the second one is skipped. -/
def decides : Connective → Bool
  | .and => false
  | .or => true

/-- The connective that a negation makes of a connective. -/
def dual : Connective → Connective
  | .and => .or
  | .or => .and

theorem eval_join (k : Connective) (c d : Condition) (vs : Variables) (m : Match) :
    (k.join c d).eval vs m = c.eval vs m >>= fun b =>
      if b = k.decides then pure b else d.eval vs m := by
  cases k with
  | and =>
    apply bind_congr
    intro b
    cases b <;> rfl
  | or =>
    apply bind_congr
    intro b
    cases b <;> rfl

theorem checkCondition_join (k : Connective) (c d : Condition) (Γ : Scope) :
    Γ.checkCondition (k.join c d) = Γ.checkCondition c >>= fun _ => Γ.checkCondition d := by
  cases k <;> rfl

/-- A negated value decides the dual connective exactly if the value decides the connective. -/
theorem not_eq_decides_dual (k : Connective) (b : Bool) :
    (!b) = k.dual.decides ↔ b = k.decides := by
  cases k <;> cases b <;> decide

end Connective

/-- The relation that holds where the given one does not. -/
def RelOp.complement : RelOp → RelOp
  | .greater => .lessEq
  | .greaterEq => .less
  | .less => .greaterEq
  | .lessEq => .greater

theorem RelOp.holds_complement (op : RelOp) (i j : Int64) :
    op.complement.holds i j = !op.holds i j := by
  cases op with
  | greater => simp only [complement, holds, ← decide_not, Int64.not_lt]
  | greaterEq => simp only [complement, holds, ← decide_not, Int64.not_le]
  | less => simp only [complement, holds, ← decide_not, Int64.not_lt]
  | lessEq => simp only [complement, holds, ← decide_not, Int64.not_le]

namespace Condition.Equivalent

variable {c c' c'' d d' : Condition}

/-! ### Equivalence -/

theorem refl (c : Condition) : c.Equivalent c := ⟨fun _ _ => rfl, fun _ => rfl⟩

theorem symm (h : c.Equivalent d) : d.Equivalent c :=
  ⟨fun vs m => (h.eval vs m).symm, fun Γ => (h.check Γ).symm⟩

theorem trans (h : c.Equivalent c') (h' : c'.Equivalent c'') : c.Equivalent c'' :=
  ⟨fun vs m => (h.eval vs m).trans (h'.eval vs m), fun Γ => (h.check Γ).trans (h'.check Γ)⟩

/-- Equivalent operands make equivalent conditions. -/
theorem join (k : Connective) (hc : c.Equivalent c') (hd : d.Equivalent d') :
    (k.join c d).Equivalent (k.join c' d') where
  eval vs m := by rw [k.eval_join, k.eval_join, hc.eval, hd.eval]
  check Γ := by rw [k.checkCondition_join, k.checkCondition_join, hc.check, hd.check]

/-! ### Laws -/

/-- A double negation cancels. -/
theorem not_not (c : Condition) : (Condition.not (.not c)).Equivalent c where
  eval vs m := by simp only [Condition.eval, bind_assoc, pure_bind, Bool.not_not, bind_pure]
  check _ := rfl

/-- **De Morgan's laws**: a negation is pushed to the operands, which keep their order. -/
theorem not_join (k : Connective) (c d : Condition) :
    (Condition.not (k.join c d)).Equivalent (k.dual.join (.not c) (.not d)) where
  eval vs m := by
    simp only [Condition.eval, Connective.eval_join, bind_assoc, pure_bind]
    apply bind_congr
    intro b
    -- the dual connective is decided by the negation of what decides the connective
    by_cases hb : b = k.decides
    · rw [if_pos hb, if_pos ((k.not_eq_decides_dual b).mpr hb), pure_bind]
    · rw [if_neg hb, if_neg (mt (k.not_eq_decides_dual b).mp hb)]
  check Γ := (k.checkCondition_join c d Γ).trans
    (k.dual.checkCondition_join (.not c) (.not d) Γ).symm

/-- **Associativity**: of three operands, the first one that decides is the last one that is
evaluated. -/
theorem join_assoc (k : Connective) (c d e : Condition) :
    (k.join (k.join c d) e).Equivalent (k.join c (k.join d e)) where
  eval vs m := by
    simp only [Connective.eval_join, bind_assoc]
    apply bind_congr
    intro b
    by_cases hb : b = k.decides
    · rw [if_pos hb, if_pos hb, pure_bind, if_pos hb]
    · rw [if_neg hb, if_neg hb]
  check Γ := by simp only [Connective.checkCondition_join, bind_assoc]

/-- Lists that are not equal differ. -/
theorem not_eq (l r : List Atom) : (Condition.not (.eq l r)).Equivalent (.neq l r) where
  eval vs m := by simp only [Condition.eval, bind_assoc, pure_bind, decide_not]
  check _ := rfl

/-- Lists that do not differ are equal. -/
theorem not_neq (l r : List Atom) : (Condition.not (.neq l r)).Equivalent (.eq l r) where
  eval vs m := by simp only [Condition.eval, bind_assoc, pure_bind, decide_not, Bool.not_not]
  check _ := rfl

/-- A relation that does not hold is the complement that holds. -/
theorem not_cmp (op : RelOp) (l r : Atom) :
    (Condition.not (.cmp op l r)).Equivalent (.cmp op.complement l r) where
  eval vs m := by simp only [Condition.eval, bind_assoc, pure_bind, RelOp.holds_complement]
  check _ := rfl

end Condition.Equivalent

end GraphTransform
