import GraphTransform.Proofs.EquivalentConditions

/-!
# Negation normal form

Negations can be pushed down a condition until they stand before its leaves: a conjunction becomes a
disjunction of the negated operands and the other way round, two negations cancel, and a comparison
of lists or integers takes up a negation by turning into the opposite one (`Condition.nnf`). A
negation stays only before a question about a variable or an edge.

The result is in negation normal form and equivalent to the condition (`Condition.nnf_equivalent`):
operands are neither exchanged nor lost, so that the same ones are skipped and the same error comes
first, for the evaluation as for the type check. The proof follows a condition and its negation at
once, since each of the two is needed for the other.
-/

namespace GraphTransform

namespace Condition

mutual

/-- The condition with all negations pushed to its leaves. -/
def nnf : Condition → Condition
  | .not c => c.nnfNot
  | .and c d => .and c.nnf d.nnf
  | .or c d => .or c.nnf d.nnf
  | c => c

/-- The negation of the condition, pushed to its leaves. -/
def nnfNot : Condition → Condition
  | .not c => c.nnf
  | .and c d => .or c.nnfNot d.nnfNot
  | .or c d => .and c.nnfNot d.nnfNot
  | .eq l r => .neq l r
  | .neq l r => .eq l r
  | .cmp op l r => .cmp op.complement l r
  | c => .not c

end

/-- Negations stand only before questions about variables and edges. -/
def IsNegationNormal : Condition → Prop
  | .not (.is _ _) => True
  | .not (.edge _ _ _) => True
  | .not _ => False
  | .and c d => c.IsNegationNormal ∧ d.IsNegationNormal
  | .or c d => c.IsNegationNormal ∧ d.IsNegationNormal
  | _ => True

theorem isNegationNormal_nnf (c : Condition) :
    c.nnf.IsNegationNormal ∧ c.nnfNot.IsNegationNormal := by
  induction c with
  | not c ih => exact ih.symm
  | and c d ihc ihd => exact ⟨⟨ihc.1, ihd.1⟩, ihc.2, ihd.2⟩
  | or c d ihc ihd => exact ⟨⟨ihc.1, ihd.1⟩, ihc.2, ihd.2⟩
  | _ => exact ⟨trivial, trivial⟩

/-- Pushing negations down keeps a condition and its negation up to equivalence. -/
theorem equivalent_nnf (c : Condition) : c.nnf.Equivalent c ∧ c.nnfNot.Equivalent (.not c) := by
  induction c with
  | is test x => exact ⟨.refl _, .refl _⟩
  | edge s t l => exact ⟨.refl _, .refl _⟩
  | eq l r => exact ⟨.refl _, (Equivalent.not_eq l r).symm⟩
  | neq l r => exact ⟨.refl _, (Equivalent.not_neq l r).symm⟩
  | cmp op l r => exact ⟨.refl _, (Equivalent.not_cmp op l r).symm⟩
  | not c ih => exact ⟨ih.2, ih.1.trans (Equivalent.not_not c).symm⟩
  | and c d ihc ihd =>
    constructor
    · exact .join .and ihc.1 ihd.1
    · have hor : (Condition.or c.nnfNot d.nnfNot).Equivalent (.or (.not c) (.not d)) :=
        .join .or ihc.2 ihd.2
      exact hor.trans (Equivalent.not_join .and c d).symm
  | or c d ihc ihd =>
    constructor
    · exact .join .or ihc.1 ihd.1
    · have hand : (Condition.and c.nnfNot d.nnfNot).Equivalent (.and (.not c) (.not d)) :=
        .join .and ihc.2 ihd.2
      exact hand.trans (Equivalent.not_join .or c d).symm

/-- **The negation normal form of a condition is equivalent to it**: it has the same value or the
same error with the same queries under every match, and is admitted, or refused with the same error,
in every scope. -/
theorem nnf_equivalent (c : Condition) : c.nnf.IsNegationNormal ∧ c.nnf.Equivalent c :=
  ⟨c.isNegationNormal_nnf.1, c.equivalent_nnf.1⟩

example :
    nnf (.not (.or (.is .integer "x")
        (.not (.and (.eq [] []) (.not (.cmp .less (.var "x") (.int 2))))))) =
      .and (.not (.is .integer "x")) (.and (.eq [] []) (.cmp .greaterEq (.var "x") (.int 2))) :=
  rfl

end Condition

end GraphTransform
