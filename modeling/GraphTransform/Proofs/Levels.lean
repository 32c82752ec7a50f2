import GraphTransform.Proofs.Schema

/-!
# Reading with more levels of brackets

The number of levels that may be opened decides whether a value is read and never as what: a reader
that may open one more reads all that it has read before, and as the same. So two readings of one
JSON value agree, however many levels were left at each.
-/

namespace GraphTransform

namespace Reader

variable {α : Type} {read : Reader α} {n : Nat}

/-- With one more level, the reader reads what it reads with `n`. -/
def Extends (read : Reader α) (n : Nat) : Prop := ∀ j a, read n j = some a → read (n + 1) j = some a

theorem text_succ (n : Nat) (j : Json) : Reader.text (n + 1) j = Reader.text n j := by
  unfold Reader.text
  match j with
  | .scalar v => cases v <;> rfl
  | .array _ | .object _ => rfl

theorem bool_succ (n : Nat) (j : Json) : Reader.bool (n + 1) j = Reader.bool n j := by
  unfold Reader.bool
  match j with
  | .scalar v => cases v <;> rfl
  | .array _ | .object _ => rfl

theorem int_succ (n : Nat) (j : Json) : Reader.int (n + 1) j = Reader.int n j := by
  unfold Reader.int
  match j with
  | .scalar (.number v) => cases v <;> rfl
  | .scalar .null | .scalar (.bool _) | .scalar (.string _) | .array _ | .object _ => rfl

theorem Extends.word {ofTag? : String → Option α} : Extends (Reader.word ofTag?) n := by
  intro j a h
  unfold Reader.word at h
  split at h
  · exact h
  · exact h
  · cases h

/-- Two values are read if both are. -/
theorem both_eq_some_iff {β γ : Type} {x : Option α} {y : Option β} {f : α → β → γ} {c : γ} :
    (do let a ← x; let b ← y; return f a b) = some c ↔
      ∃ a b, x = some a ∧ y = some b ∧ f a b = c := by
  cases x <;> cases y <;> simp

/-- A list is read item by item. -/
theorem mapM_of_imp {β : Type} {f g : β → Option α} {items : List β} {as : List α}
    (h : ∀ j ∈ items, ∀ a, f j = some a → g j = some a) (hf : items.mapM f = some as) :
    items.mapM g = some as := by
  induction items generalizing as with
  | nil => exact hf
  | cons j items ih =>
    obtain ⟨hj, hitems⟩ := List.forall_mem_cons.mp h
    simp only [List.mapM_cons, Option.bind_eq_bind, Option.bind_eq_some_iff] at hf ⊢
    obtain ⟨a, ha, rest, hrest, hf⟩ := hf
    exact ⟨a, hj a ha, rest, ih hitems hrest, hf⟩

theorem Extends.list (h : ∀ m < n, Extends read m) : Extends (Reader.list read) n := by
  intro j as has
  unfold Reader.list at has
  split at has
  · next m items => exact mapM_of_imp (fun j _ => h m (Nat.lt_succ_self m) j) has
  · cases has

theorem Extends.pair (h : ∀ m < n, Extends read m) : Extends (Reader.pair read) n := by
  intro j p hp
  unfold Reader.pair at hp
  split at hp
  · next m j k =>
    obtain ⟨a, b, ha, hb, hp⟩ := both_eq_some_iff.mp hp
    have hlt := Nat.lt_succ_self m
    exact both_eq_some_iff.mpr ⟨a, b, h m hlt j a ha, h m hlt k b hb, hp⟩
  · cases hp

theorem Extends.optional (h : Extends read n) : Extends (Reader.optional read) n := by
  intro j a ha
  unfold Reader.optional at ha ⊢
  split at ha
  · exact ha
  · obtain ⟨b, hb, rfl⟩ := Option.map_eq_some_iff.mp ha
    rw [h _ b hb]
    rfl

end Reader

/-! ### Atoms -/

theorem Direction.eq_tag_of_ofTag? {tag : String} {d : Direction}
    (h : Direction.ofTag? tag = some d) : tag = d.tag := by
  have htag := List.find?_some h
  exact (of_decide_eq_true htag).symm

theorem ArithOp.eq_tag_of_ofTag? {tag : String} {op : ArithOp} (h : ArithOp.ofTag? tag = some op) :
    tag = op.tag := by
  have htag := List.find?_some h
  exact (of_decide_eq_true htag).symm

theorem ValueTest.eq_tag_of_ofTag? {tag : String} {test : ValueTest}
    (h : ValueTest.ofTag? tag = some test) : tag = test.tag := by
  have htag := List.find?_some h
  exact (of_decide_eq_true htag).symm

theorem Atom.extends_read (n : Nat) : Reader.Extends Atom.read n := by
  intro j a h
  fun_induction Atom.read n j generalizing a with
  | case1 n tag payload d htag =>
    obtain rfl := Direction.eq_tag_of_ofTag? htag
    exact (read_degree (n + 1) payload d).trans (Reader.text_succ n payload ▸ h)
  | case2 tag op htag _ n j k ihj ihk =>
    obtain rfl := ArithOp.eq_tag_of_ofTag? htag
    obtain ⟨b, c, hb, hc, h⟩ := Reader.both_eq_some_iff.mp h
    exact (read_arith (n + 1) j k op).trans
      (Reader.both_eq_some_iff.mpr ⟨b, c, ihj b hb, ihk c hc, h⟩)
  | case4 n payload => exact (read_int (n + 1) payload).trans (Reader.int_succ n payload ▸ h)
  | case5 n payload => exact (read_str (n + 1) payload).trans (Reader.text_succ n payload ▸ h)
  | case6 n payload => exact (read_var (n + 1) payload).trans (Reader.text_succ n payload ▸ h)
  | case7 n payload => exact (read_length (n + 1) payload).trans (Reader.text_succ n payload ▸ h)
  | case8 n payload _ _ _ _ _ _ ih =>
    obtain ⟨b, hb, rfl⟩ := Option.map_eq_some_iff.mp h
    exact (read_neg (n + 1) payload).trans (by rw [ih b hb]; rfl)
  | case9 n j k _ _ _ _ _ _ _ ihj ihk =>
    obtain ⟨b, c, hb, hc, h⟩ := Reader.both_eq_some_iff.mp h
    exact (read_concat (n + 1) j k).trans
      (Reader.both_eq_some_iff.mpr ⟨b, c, ihj b hb, ihk c hc, h⟩)
  | case3 | case10 | case11 | case12 => cases h

/-! ### Conditions and structures -/

/-- A structure is read with one more level if its fields are. -/
theorem Record.extends_read {α : Type} (r : Record α) {n : Nat}
    (h : ∀ m < n, ∀ f ∈ r.fields, Reader.Extends f.form.read m) : Reader.Extends r.read n := by
  intro j a ha
  obtain ⟨m, field, rfl, hfield, hfields⟩ := r.read_eq_some_iff.mp ha
  refine r.read_eq_some_iff.mpr ⟨m + 1, field, rfl, hfield, fun f hf => ?_⟩
  have hread := hfields f hf
  cases hj : field f.name with
  | none => rwa [hj] at hread
  | some j =>
    rw [hj] at hread
    exact h m (Nat.lt_succ_self m) f hf j _ hread

theorem Condition.extends_readCmp (n : Nat) : Reader.Extends Condition.readCmp n := by
  intro j c h
  unfold readCmp at h
  split at h
  · next n op j k =>
    simp only [Option.bind_eq_bind, Option.bind_eq_some_iff] at h
    obtain ⟨op', hop, l, hl, r, hr, h⟩ := h
    have hop' := Reader.Extends.word op op' hop
    rw [readCmp, hop', Atom.extends_read n j l hl, Atom.extends_read n k r hr]
    exact h
  · cases h

/-- A condition is read with one more level if its parts are. -/
theorem Condition.extends_read {n : Nat} (hedge : ∀ m < n, Reader.Extends Record.edgeTest.read m) :
    Reader.Extends Condition.read n := by
  intro j c h
  have hlists (n : Nat) : Reader.Extends (Reader.pair (Reader.list Atom.read)) n :=
    .pair fun _ _ => .list fun m _ => Atom.extends_read m
  fun_induction Condition.read n j generalizing c with
  | case1 n tag payload test htag =>
    obtain rfl := ValueTest.eq_tag_of_ofTag? htag
    exact (read_is (n + 1) payload test).trans (Reader.text_succ n payload ▸ h)
  | case2 n payload =>
    rw [readEdge_eq] at h
    obtain ⟨e, he, rfl⟩ := Option.map_eq_some_iff.mp h
    exact (read_edge (n + 1) payload).trans (by
      rw [readEdge_eq, hedge n (Nat.lt_succ_self n) payload e he]
      rfl)
  | case3 n payload =>
    obtain ⟨p, hp, rfl⟩ := Option.map_eq_some_iff.mp h
    have hp' := hlists n payload p hp
    exact (read_eq (n + 1) payload).trans (by rw [hp']; rfl)
  | case4 n payload =>
    obtain ⟨p, hp, rfl⟩ := Option.map_eq_some_iff.mp h
    have hp' := hlists n payload p hp
    exact (read_neq (n + 1) payload).trans (by rw [hp']; rfl)
  | case5 n payload => exact (read_cmp (n + 1) payload).trans (extends_readCmp n payload c h)
  | case6 n payload _ _ _ _ _ ih =>
    obtain ⟨d, hd, rfl⟩ := Option.map_eq_some_iff.mp h
    have hd' := ih (fun m hm => hedge m (by omega)) d hd
    exact (read_not (n + 1) payload).trans (by rw [hd']; rfl)
  | case7 n j k _ _ _ _ _ _ ihj ihk =>
    obtain ⟨d, e, hd, he, h⟩ := Reader.both_eq_some_iff.mp h
    have hd' := ihj (fun m hm => hedge m (by omega)) d hd
    have he' := ihk (fun m hm => hedge m (by omega)) e he
    exact (read_and (n + 1) j k).trans (Reader.both_eq_some_iff.mpr ⟨d, e, hd', he', h⟩)
  | case9 n j k _ _ _ _ _ _ _ ihj ihk =>
    obtain ⟨d, e, hd, he, h⟩ := Reader.both_eq_some_iff.mp h
    have hd' := ihj (fun m hm => hedge m (by omega)) d hd
    have he' := ihk (fun m hm => hedge m (by omega)) e he
    exact (read_or (n + 1) j k).trans (Reader.both_eq_some_iff.mpr ⟨d, e, hd', he', h⟩)
  | case8 | case10 | case11 | case12 => cases h

theorem Kind.extends_read {α : Type} (k : Kind α) {n : Nat}
    (ih : ∀ m < n, ∀ {β : Type} (F : Form β), Reader.Extends F.read m) :
    Reader.Extends k.read n := by
  cases k with
  | text => exact fun j a h => (Reader.text_succ n j).trans h
  | bool => exact fun j a h => (Reader.bool_succ n j).trans h
  | mark => exact .word
  | type => exact .word
  | atom => exact Atom.extends_read n
  | condition => exact Condition.extends_read fun m hm => ih m hm (.one (.record .edgeTest))
  | record r => exact r.extends_read fun m hm f _ => ih m hm f.form

theorem Form.extends_read (n : Nat) {α : Type} (F : Form α) : Reader.Extends F.read n := by
  induction n using Nat.strongRecOn generalizing α with
  | ind n ih =>
    cases F with
    | one k => exact k.extends_read fun m hm _ => ih m hm
    | list k => exact .list fun m hm => ih m hm (.one k)
    | optional k => exact .optional (k.extends_read fun m hm _ => ih m hm)

/-- What is read with some levels is read as the same with more. -/
theorem Form.read_of_le {α : Type} (F : Form α) {n m : Nat} {j : Json} {a : α} (hle : n ≤ m)
    (h : F.read n j = some a) : F.read m j = some a := by
  induction hle with
  | refl => exact h
  | step _ ih => exact F.extends_read _ j a ih

/-- Two readings of a value agree. -/
theorem Form.read_unique {α : Type} (F : Form α) {n m : Nat} {j : Json} {a b : α}
    (ha : F.read n j = some a) (hb : F.read m j = some b) : a = b := by
  have ha' := F.read_of_le (Nat.le_max_left n m) ha
  have hb' := F.read_of_le (Nat.le_max_right n m) hb
  exact Option.some.inj (ha'.symm.trans hb')

end GraphTransform
