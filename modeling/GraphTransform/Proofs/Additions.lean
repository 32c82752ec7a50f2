import GraphTransform.Proofs.Variables
import Mathlib.Data.List.Induction

/-!
# Additions to a table of variables

Of several declarations of a name the first one counts. Additions change a table in place, and some
of them may fail, with others after them. An addition fails exactly if its name was added before,
and then it leaves the table as it was. So the table has the variables that were added, in order and
each name once, and finds exactly them (`Variables.keepsFirst`).

`Variables.add` takes its steps one by one on the table at hand, and a failure undoes none of them.
That a failed addition leaves no trace is a fact about the order of the steps, then: nothing is
changed before the name is looked up (`run_add`). `Variables.run` tries additions on the empty table
and records them. One attempt keeps that the table holds the variables that were added
(`Recorded.run_attempt`), hence a run does (`recorded_run`). The additions up to any point are a
run, too (`tables_run`), so what is said of the table in the end holds of all tables on the way.

Tables are equal if their declarations are, whatever their indexes have. No lookup can tell equal
tables apart if both come from additions, because the declarations that a table holds decide what it
finds.
-/

namespace GraphTransform.Variables

/-! ### Statements -/

/-- Add a variable to the table at hand, unless its name is taken. A failure undoes nothing. -/
def add (v : Variable) : ExceptT DeclError (StateM Variables) Unit := do
  if (← get).index.contains v.name then
    throw (.duplicateVariable v.name)
  modify fun vs => { vs with index := vs.index.insert v.name vs.decls.size }
  modify fun vs => { vs with decls := vs.decls.push v }

/-- An addition that was tried. -/
structure Attempt where
  /-- The table that it met. -/
  before : Variables
  /-- The variable. -/
  decl : Variable
  /-- The outcome. -/
  outcome : Except DeclError Unit
  /-- The table that it left. -/
  after : Variables

/-- Try to add a variable. -/
def attempt (v : Variable) : StateM Variables Attempt := do
  let before ← get
  let outcome ← (add v).run
  return { before, decl := v, outcome, after := ← get }

/-- Try to add variables to the empty table, one after the other: the attempts, and the table in the
end. -/
def run (ds : List Variable) : List Attempt × Variables := (ds.mapM attempt).run empty

/-- The variable, if it was added. -/
def Attempt.added? (a : Attempt) : Option Variable :=
  match a.outcome with
  | .ok () => some a.decl
  | .error _ => none

/-- The variables that were added, in order. -/
def added (as : List Attempt) : List Variable := as.filterMap Attempt.added?

/-- The attempt comes out as the earlier ones demand. -/
structure Attempt.Follows (a : Attempt) (earlier : List Attempt) : Prop where
  /-- It declares the variable in the table that it met. -/
  declare_eq : a.before.declare a.decl = a.outcome.map fun () => a.after
  /-- It fails exactly if the name was added before. -/
  fails_iff : a.outcome = .error (.duplicateVariable a.decl.name) ↔
    a.decl.name ∈ (added earlier).map (·.name)
  /-- It succeeds exactly if the name was not added before. -/
  succeeds_iff : a.outcome = .ok () ↔ a.decl.name ∉ (added earlier).map (·.name)
  /-- If it fails, then it leaves the table as it was. -/
  unchanged : ∀ e, a.outcome = .error e → a.after = a.before

/-- The table has these variables, in order, and no others. -/
structure Lists (vs : Variables) (ds : List Variable) : Prop where
  /-- The declarations. -/
  toList : vs.toList = ds
  /-- No name is declared twice. -/
  nodup : (ds.map (·.name)).Nodup
  /-- The number of variables. -/
  count : vs.count = ds.length
  /-- A lookup finds the declared type, and nothing for other names. -/
  type?_iff : ∀ x t, vs.type? x = some t ↔ (⟨x, t⟩ : Variable) ∈ ds
  /-- A lookup goes to positions that the declarations have. -/
  inRange : ∀ (x : String) i, vs.index[x]? = some i → i < vs.decls.size

/-- Additions to the empty table keep the first variable of each name, and nothing else. -/
structure KeepsFirst (ds : List Variable) : Prop where
  /-- Every addition is tried. -/
  decls : (run ds).1.map (·.decl) = ds
  /-- Each meets the table of the run before it, and leaves the table of the run with it. -/
  tables : ∀ i (a : Attempt), (run ds).1[i]? = some a →
    a.before = (run (ds.take i)).2 ∧ a.after = (run (ds.take (i + 1))).2
  /-- Each comes out as the earlier ones demand. -/
  follows : ∀ i (a : Attempt), (run ds).1[i]? = some a → a.Follows ((run ds).1.take i)
  /-- The table has the variables that were added. -/
  lists : (run ds).2.Lists (added (run ds).1)
  /-- Whatever additions lead to an equal table, lookups in it find the same. -/
  type?_eq : ∀ ds', ((run ds').2 == (run ds).2) = true →
    ∀ x, (run ds').2.type? x = (run ds).2.type? x

/-! ### One addition -/

/-- An addition is a declaration, and leaves the table as it was if it fails. -/
theorem run_add (v : Variable) (vs : Variables) : (add v).run.run vs =
    match vs.declare v with
    | .ok vs' => (.ok (), vs')
    | .error e => (.error e, vs) := by
  rw [declare, add]
  -- the first step looks at the table only, so both sides are decided by the same test
  change StateT.run (ExceptT.run (if vs.index.contains v.name = true then _ else _)) vs = _
  by_cases h : vs.index.contains v.name = true
  · rw [if_pos h, if_pos h]
    rfl
  · rw [if_neg h, if_neg h]
    rfl

theorem run_attempt (v : Variable) (vs : Variables) : (attempt v).run vs =
    (⟨vs, v, ((add v).run.run vs).1, ((add v).run.run vs).2⟩, ((add v).run.run vs).2) := rfl

theorem run_attempt_of_ok {v : Variable} {vs vs' : Variables} (h : vs.declare v = .ok vs') :
    (attempt v).run vs = (⟨vs, v, .ok (), vs'⟩, vs') := by
  rw [run_attempt, run_add, h]

theorem run_attempt_of_error {v : Variable} {vs : Variables} {e : DeclError}
    (h : vs.declare v = .error e) : (attempt v).run vs = (⟨vs, v, .error e, vs⟩, vs) := by
  rw [run_attempt, run_add, h]

theorem Holds.lists {vs : Variables} {ds : List Variable} (h : vs.Holds ds) : vs.Lists ds where
  toList := h.decls
  nodup := h.nodup
  count := h.count
  type?_iff _ _ := h.type?_eq_some_iff
  inRange _ _ := h.lt_size_of_index

/-! ### Runs -/

theorem added_append_singleton (as : List Attempt) (a : Attempt) :
    added (as ++ [a]) = added as ++ a.added?.toList := by
  rw [added, List.filterMap_append, added]
  cases h : a.added? <;> simp [h]

namespace Holds

variable {vs : Variables} {as : List Attempt} (h : vs.Holds (added as)) (v : Variable)

include h

/-- A further attempt follows from those so far. -/
theorem follows_attempt : ((attempt v).run vs).1.Follows as := by
  by_cases hv : v.name ∈ (added as).map (·.name)
  · have herror := h.declare_eq_error hv
    rw [run_attempt_of_error herror]
    exact ⟨herror, iff_of_true rfl hv, iff_of_false nofun (not_not_intro hv), fun _ _ => rfl⟩
  · obtain ⟨vs', hok⟩ := h.exists_declare hv
    rw [run_attempt_of_ok hok]
    exact ⟨hok, iff_of_false nofun hv, iff_of_true rfl hv, nofun⟩

/-- After a further attempt the table holds what was added until then. -/
theorem run_attempt : ((attempt v).run vs).2.Holds (added (as ++ [((attempt v).run vs).1])) := by
  rw [added_append_singleton]
  cases hv : vs.declare v with
  | ok vs' =>
    rw [run_attempt_of_ok hv]
    exact h.declare hv
  | error e =>
    rw [run_attempt_of_error hv]
    simpa [Attempt.added?] using h

end Holds

/-- What a run has recorded is right: the attempts to add the variables, and the table that they
have led to. -/
structure Recorded (ds : List Variable) (as : List Attempt) (vs : Variables) : Prop where
  /-- There is an attempt for each variable. -/
  decls : as.map (·.decl) = ds
  /-- Each attempt follows from the earlier ones. -/
  follows : ∀ i (a : Attempt), as[i]? = some a → a.Follows (as.take i)
  /-- The table holds the variables that were added. -/
  holds : vs.Holds (added as)

theorem recorded_empty : Recorded [] [] empty where
  decls := rfl
  follows i a ha := by
    rw [List.getElem?_nil] at ha
    cases ha
  holds := holds_empty

/-- **One attempt keeps the record right.** -/
theorem Recorded.run_attempt {ds : List Variable} {as : List Attempt} {vs : Variables}
    (h : Recorded ds as vs) (v : Variable) :
    Recorded (ds ++ [v]) (as ++ [((attempt v).run vs).1]) ((attempt v).run vs).2 where
  decls := by
    rw [List.map_append, h.decls]
    rfl
  follows i a ha := by
    rcases getElem?_append_singleton_eq_some_iff.mp ha with hi | ⟨rfl, rfl⟩
    · have hlt : i < as.length := (List.getElem?_eq_some_iff.mp hi).1
      rw [List.take_append_of_le_length (Nat.le_of_lt hlt)]
      exact h.follows i a hi
    · rw [List.take_left]
      exact h.holds.follows_attempt v
  holds := h.holds.run_attempt v

theorem run_append_singleton (ds : List Variable) (v : Variable) : run (ds ++ [v]) =
    ((run ds).1 ++ [((attempt v).run (run ds).2).1], ((attempt v).run (run ds).2).2) := by
  rw [run, List.mapM_append, List.mapM_cons, List.mapM_nil]
  rfl

/-- A run keeps the record right. -/
theorem recorded_run (ds : List Variable) : Recorded ds (run ds).1 (run ds).2 := by
  induction ds using List.reverseRecOn with
  | nil => exact recorded_empty
  | append_singleton ds v ih =>
    rw [run_append_singleton]
    exact ih.run_attempt v

/-- The tables that the attempts of a run meet and leave are those of the runs up to them. -/
theorem tables_run {ds : List Variable} {i : Nat} {a : Attempt} (ha : (run ds).1[i]? = some a) :
    a.before = (run (ds.take i)).2 ∧ a.after = (run (ds.take (i + 1))).2 := by
  induction ds using List.reverseRecOn with
  | nil => cases ha.symm.trans List.getElem?_nil
  | append_singleton ds v ih =>
    have hlength : (run ds).1.length = ds.length := by
      rw [← List.length_map, (recorded_run ds).decls]
    rw [run_append_singleton] at ha
    rcases getElem?_append_singleton_eq_some_iff.mp ha with hi | ⟨rfl, rfl⟩
    · have hlt : i < ds.length := hlength ▸ (List.getElem?_eq_some_iff.mp hi).1
      rw [List.take_append_of_le_length (Nat.le_of_lt hlt), List.take_append_of_le_length hlt]
      exact ih hi
    · have hall : (ds ++ [v]).take (ds.length + 1) = ds ++ [v] := List.take_of_length_le (by simp)
      rw [hlength, List.take_left, hall, run_append_singleton]
      exact ⟨rfl, rfl⟩

/-- **The first variable of a name is kept**: an addition fails exactly if its name was added
before, and changes nothing then, so the table has the variables that were added. Lookups in equal
tables find the same. -/
theorem keepsFirst (ds : List Variable) : KeepsFirst ds where
  decls := (recorded_run ds).decls
  tables _ _ := tables_run
  follows := (recorded_run ds).follows
  lists := (recorded_run ds).holds.lists
  type?_eq ds' heq x := by
    have h := (recorded_run ds).holds
    have h' := (recorded_run ds').holds
    -- the lists of declarations are equal, so both tables hold the same
    have hadded : added (run ds').1 = added (run ds).1 :=
      h'.decls.symm.trans ((beq_iff.mp heq).trans h.decls)
    rw [hadded] at h'
    exact h.type?_congr h' x

/-- A second `x`, between the first one and `l`. -/
def refusedEarly : List Variable := [⟨"x", .integer⟩, ⟨"x", .string⟩, ⟨"l", .list⟩]

/-- A second `x`, after `l`. -/
def refusedLate : List Variable := [⟨"x", .integer⟩, ⟨"l", .list⟩, ⟨"x", .atom⟩]

/-- Both times the second `x` is refused. The tables are equal, so they find the same types. -/
theorem keepsFirst_refused :
    (run refusedEarly).1.map (·.outcome) = [.ok (), .error (.duplicateVariable "x"), .ok ()] ∧
      (run refusedLate).1.map (·.outcome) = [.ok (), .ok (), .error (.duplicateVariable "x")] ∧
      ((run refusedLate).2 == (run refusedEarly).2) = true ∧
      (run refusedEarly).2.type? "x" = some .integer ∧
      ∀ x, (run refusedLate).2.type? x = (run refusedEarly).2.type? x := by
  have heq : ((run refusedLate).2 == (run refusedEarly).2) = true := beq_iff.mpr (by decide +kernel)
  have hx : (run refusedEarly).2.type? "x" = some .integer :=
    ((keepsFirst refusedEarly).lists.type?_iff _ _).mpr (by decide +kernel)
  exact ⟨by decide +kernel, by decide +kernel, heq, hx,
    (keepsFirst refusedEarly).type?_eq refusedLate heq⟩

end GraphTransform.Variables
