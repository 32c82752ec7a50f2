import GraphTransform.Proofs.EquivalentConditions

/-!
# Bracketing

A sequence of conditions can be combined by conjunctions alone, or by disjunctions alone, in as many
ways as brackets can be put around its parts (`Bracketing`). The brackets do not matter: all the
conditions built in this way are equivalent (`Bracketing.equivalent_of_parts_eq`), whatever the
parts are, also where some of them fail or are skipped.

Every bracketing is brought into one form, in which all brackets open as late as possible
(`Connective.chain`). That takes associativity only.
-/

namespace GraphTransform

/-- A way to put brackets around the parts of a sequence of conditions, two at a time. -/
inductive Bracketing where
  /-- A part stands alone. -/
  | single (c : Condition)
  /-- Two brackets stand next to each other in a bracket. -/
  | pair (t u : Bracketing)

namespace Bracketing

/-- The sequence, from left to right. -/
def parts : Bracketing → List Condition
  | single c => [c]
  | pair t u => t.parts ++ u.parts

/-- The condition that is built by one connective alone. -/
def condition (k : Connective) : Bracketing → Condition
  | single c => c
  | pair t u => k.join (t.condition k) (u.condition k)

theorem exists_parts_eq_cons (t : Bracketing) : ∃ c rest, t.parts = c :: rest := by
  induction t with
  | single c => exact ⟨c, [], rfl⟩
  | pair t u iht _ =>
    obtain ⟨c, rest, hparts⟩ := iht
    exact ⟨c, rest ++ u.parts, by rw [parts, hparts, List.cons_append]⟩

end Bracketing

/-- The condition built from a first part and the rest, with all brackets at the end. -/
def Connective.chain (k : Connective) (c : Condition) : List Condition → Condition
  | [] => c
  | d :: rest => k.join c (k.chain d rest)

/-- Two chains are joined to one. -/
theorem Connective.join_chain (k : Connective) (c d : Condition) (cs ds : List Condition) :
    (k.join (k.chain c cs) (k.chain d ds)).Equivalent (k.chain c (cs ++ d :: ds)) := by
  induction cs generalizing c with
  | nil => exact .refl _
  | cons e cs ih =>
    have hassoc : (k.join (k.chain c (e :: cs)) (k.chain d ds)).Equivalent
        (k.join c (k.join (k.chain e cs) (k.chain d ds))) :=
      .join_assoc k c (k.chain e cs) (k.chain d ds)
    exact hassoc.trans (.join k (.refl c) (ih e))

/-- A bracketing is equivalent to the chain of its parts. -/
theorem Bracketing.equivalent_chain (k : Connective) {t : Bracketing} {c : Condition}
    {rest : List Condition} (h : t.parts = c :: rest) :
    (t.condition k).Equivalent (k.chain c rest) := by
  induction t generalizing c rest with
  | single d =>
    obtain ⟨rfl, rfl⟩ := List.cons.inj h
    exact .refl d
  | pair t u iht ihu =>
    obtain ⟨d, cs, ht⟩ := t.exists_parts_eq_cons
    obtain ⟨e, ds, hu⟩ := u.exists_parts_eq_cons
    rw [parts, ht, hu, List.cons_append] at h
    obtain ⟨rfl, rfl⟩ := List.cons.inj h
    have hjoin : ((pair t u).condition k).Equivalent (k.join (k.chain d cs) (k.chain e ds)) :=
      .join k (iht ht) (ihu hu)
    exact hjoin.trans (k.join_chain d e cs ds)

/-- **Brackets do not matter**: conditions built from one sequence by conjunctions alone, or by
disjunctions alone, have the same value or the same error with the same queries under every match,
and the same type check in every scope. -/
theorem Bracketing.equivalent_of_parts_eq (k : Connective) {t u : Bracketing}
    (h : t.parts = u.parts) : (t.condition k).Equivalent (u.condition k) := by
  obtain ⟨c, rest, ht⟩ := t.exists_parts_eq_cons
  have hu : u.parts = c :: rest := h.symm.trans ht
  exact (t.equivalent_chain k ht).trans (u.equivalent_chain k hu).symm

/-- Three questions of which the second one has no answer if `x` is not bound: two brackets on the
left. -/
def bracketedLeft : Bracketing :=
  .pair (.pair (.single (.edge "a" "b" none)) (.single (.is .integer "x")))
    (.single (.edge "b" "a" none))

/-- The same questions with two brackets on the right. -/
def bracketedRight : Bracketing :=
  .pair (.single (.edge "a" "b" none))
    (.pair (.single (.is .integer "x")) (.single (.edge "b" "a" none)))

/-- The three questions are an instance, with different conditions. -/
theorem Bracketing.equivalent_bracketedLeft : bracketedLeft.parts = bracketedRight.parts ∧
    bracketedLeft.condition .and ≠ bracketedRight.condition .and ∧
    (bracketedLeft.condition .and).Equivalent (bracketedRight.condition .and) :=
  ⟨rfl, by decide, equivalent_of_parts_eq .and rfl⟩

end GraphTransform
