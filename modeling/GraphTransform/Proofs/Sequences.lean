import GraphTransform.Traced
import Mathlib.Data.List.Forall2

/-!
# Sequences of outcomes

A check that looks at several things fails with the first that is wrong. What it reports is then the
first entry of a list of findings, and the list of a sequence of checks is that of the first check
followed by that of the second (`Reports.bind`). So whether a sequence succeeds, and how it fails,
can be read off a list that is put together without any order of evaluation.
-/

namespace GraphTransform

variable {ε α β : Type}

/-- Lists that are related entry by entry to a third one are related to each other. -/
theorem forall₂_trans {α β γ : Type} {P : α → β → Prop} {Q : β → γ → Prop} {P' : α → γ → Prop}
    (hP : ∀ a b c, P a b → Q b c → P' a c) {xs : List α} {ys : List β} {zs : List γ}
    (h : List.Forall₂ P xs ys) (h' : List.Forall₂ Q ys zs) : List.Forall₂ P' xs zs := by
  induction h generalizing zs with
  | nil =>
    cases h'
    exact .nil
  | cons hxy _ ih =>
    cases h' with
    | cons hyz hrest => exact .cons (hP _ _ _ hxy hyz) (ih hrest)

/-- A list of computations yields values exactly if each of them does. -/
theorem mapM_eq_ok_iff {f : α → Except ε β} {xs : List α} {ys : List β} :
    xs.mapM f = .ok ys ↔ List.Forall₂ (fun y x => f x = .ok y) ys xs := by
  induction xs generalizing ys with
  | nil => simp [pure, Except.pure, eq_comm]
  | cons x xs ih =>
    simp only [List.mapM_cons, bind_eq_ok_iff, ih, List.forall₂_cons_right_iff]
    constructor
    · rintro ⟨y, hy, ys', hys, heq⟩
      exact ⟨y, ys', hy, hys, (Except.ok.inj heq).symm⟩
    · rintro ⟨y, ys', hy, hys, rfl⟩
      exact ⟨y, hy, ys', hys, rfl⟩

/-- Some values are yielded exactly if each of the computations yields one. -/
theorem exists_mapM_eq_ok_iff {f : α → Except ε β} {xs : List α} :
    (∃ ys, xs.mapM f = .ok ys) ↔ ∀ x ∈ xs, ∃ y, f x = .ok y := by
  induction xs with
  | nil => simp [pure, Except.pure]
  | cons x xs ih =>
    rw [List.forall_mem_cons, ← ih]
    simp only [List.mapM_cons, bind_eq_ok_iff]
    constructor
    · rintro ⟨_, y, hy, ys, hys, -⟩
      exact ⟨⟨y, hy⟩, ys, hys⟩
    · rintro ⟨⟨y, hy⟩, ys, hys⟩
      exact ⟨y :: ys, y, hy, ys, hys, rfl⟩

/-- A list of checks succeeds exactly if each of them does. -/
theorem forM_eq_ok_iff {f : α → Except ε Unit} {xs : List α} {u : Unit} :
    xs.forM f = .ok u ↔ ∀ x ∈ xs, f x = .ok () := by
  induction xs with
  | nil => simp [pure, Except.pure]
  | cons x xs ih =>
    rw [List.forM, List.forall_mem_cons, ← ih, bind_eq_ok_iff]
    constructor
    · rintro ⟨⟨⟩, hx, hxs⟩
      exact ⟨hx, hxs⟩
    · rintro ⟨hx, hxs⟩
      exact ⟨(), hx, hxs⟩

/-! ### Reports -/

/-- The outcome of a computation with the given findings: the first of them as an error, or some
value if there is none. -/
inductive Reports : List ε → Except ε α → Prop where
  /-- There are no findings. -/
  | ok {a : α} : Reports [] (.ok a)
  /-- The first finding is the error. -/
  | error {e : ε} {rest : List ε} : Reports (e :: rest) (.error e)

namespace Reports

variable {vs ws : List ε} {x : Except ε α} {f : α → Except ε β}

theorem exists_ok_iff (h : Reports vs x) : (∃ a, x = .ok a) ↔ vs = [] := by
  cases h <;> simp

theorem eq_error_iff (h : Reports vs x) {e : ε} : x = .error e ↔ vs.head? = some e := by
  cases h <;> simp

theorem of_ok {a : α} (h : x = .ok a) : Reports [] x := h ▸ .ok

/-- The findings of a sequence are those of the first part, and then those of the second. -/
theorem bind (hx : Reports vs x) (hf : ∀ a, x = .ok a → Reports ws (f a)) :
    Reports (vs ++ ws) (x >>= f) := by
  cases hx with
  | ok => exact hf _ rfl
  | error => exact .error

theorem ok_bind {a : α} (h : Reports ws (f a)) : Reports ws ((.ok a : Except ε α) >>= f) := h

/-- What follows a computation without findings of its own decides. -/
theorem bind_right (hx : Reports vs x) (hf : ∀ a, x = .ok a → Reports [] (f a)) :
    Reports vs (x >>= f) := by
  simpa using hx.bind hf

theorem mapM {f : α → Except ε β} {findings : α → List ε} {xs : List α}
    (h : ∀ x ∈ xs, Reports (findings x) (f x)) : Reports (xs.flatMap findings) (xs.mapM f) := by
  induction xs with
  | nil => exact .ok
  | cons x xs ih =>
    rw [List.mapM_cons, List.flatMap_cons]
    refine (h x List.mem_cons_self).bind fun y _ => ?_
    exact (ih fun x' hx' => h x' (List.mem_cons_of_mem _ hx')).bind_right fun ys _ => .ok

theorem forM {f : α → Except ε Unit} {findings : α → List ε} {xs : List α}
    (h : ∀ x ∈ xs, Reports (findings x) (f x)) : Reports (xs.flatMap findings) (xs.forM f) := by
  induction xs with
  | nil => exact .ok
  | cons x xs ih =>
    rw [List.forM, List.flatMap_cons]
    refine (h x List.mem_cons_self).bind fun _ _ => ?_
    exact ih fun x' hx' => h x' (List.mem_cons_of_mem _ hx')

end Reports

end GraphTransform
