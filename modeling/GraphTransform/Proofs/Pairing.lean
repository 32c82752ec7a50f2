import GraphTransform.Delta.Edges
import GraphTransform.Proofs.Indexing
import Mathlib.Data.List.Nodup
import Mathlib.Data.Set.Insert

/-!
# Pairing edges

The edges of the right side are paired one after the other with left edges, and no left edge is
taken twice. `IsPartner` says, without tables, which left edge an edge of the right side gets when
some are taken: the first free one that it seeks, provided that both run between the same nodes.
An edge with an identifier seeks the edges of that name, and a left edge without an identifier has
one that is made up from its ends; an edge without an identifier seeks those between its ends.

`Paired` is the loop as a relation, with the set of the left edges taken so far, and
`paired_pairEdges` says that the loop over the table follows it. Everything else is by induction
on this relation: what is taken, what is left, and that each edge got its partner, or none, when
exactly the partners of the edges before it were taken (`takenBefore`).
-/

namespace GraphTransform

open Correspondence (Table)

/-- The left edge `e'` is one that the edge `e` of the right side seeks: one that has its identifier
as a name, or, if it has no identifier, one between its ends. -/
def EdgeDecl.Seeks (e e' : EdgeDecl) : Prop :=
  match e.id with
  | some id => e'.name = id
  | none => e'.source = e.source ∧ e'.target = e.target

/-- The edges run between the same nodes. -/
def EdgeDecl.SameEnds (e e' : EdgeDecl) : Prop := e'.source = e.source ∧ e'.target = e.target

/-- Among the left edges `es` but for those at `taken`, the one at `l` is the first with a
property. -/
structure IsFirst (es : List EdgeDecl) (taken : Set Nat) (p : EdgeDecl → Prop) (l : Nat) :
    Prop where
  /-- It is free. -/
  free : l ∉ taken
  /-- It has the property. -/
  holds : ∃ e, es[l]? = some e ∧ p e
  /-- No free edge before it has the property. -/
  first : ∀ l' < l, l' ∉ taken → ∀ e, es[l']? = some e → ¬ p e

/-- At most one edge is the first. -/
theorem IsFirst.unique {es : List EdgeDecl} {taken : Set Nat} {p : EdgeDecl → Prop} {l l' : Nat}
    (h : IsFirst es taken p l) (h' : IsFirst es taken p l') : l = l' := by
  obtain ⟨e, he, hp⟩ := h.holds
  obtain ⟨e', he', hp'⟩ := h'.holds
  rcases lt_trichotomy l l' with hlt | heq | hlt
  · exact absurd hp (h'.first l hlt h.free e he)
  · exact heq
  · exact absurd hp' (h.first l' hlt h'.free e' he')

/-- If some free edge has a property, then there is a first one. -/
theorem exists_isFirst {es : List EdgeDecl} {taken : Set Nat} {p : EdgeDecl → Prop} {l : Nat}
    (hfree : l ∉ taken) {e : EdgeDecl} (he : es[l]? = some e) (hp : p e) :
    ∃ l', IsFirst es taken p l' := by
  induction l using Nat.strong_induction_on generalizing e with
  | _ l ih =>
    by_cases hearlier : ∃ l' < l, l' ∉ taken ∧ ∃ e', es[l']? = some e' ∧ p e'
    · obtain ⟨l', hlt, hfree', e', he', hp'⟩ := hearlier
      exact ih l' hlt hfree' he' hp'
    · refine ⟨l, hfree, ⟨e, he, hp⟩, fun l' hlt hfree' e' he' hp' => ?_⟩
      exact hearlier ⟨l', hlt, hfree', e', he', hp'⟩

/-- The left edge at `l` is the partner of `e`: the first free one that `e` seeks, and it runs
between the same nodes. -/
structure IsPartner (es : List EdgeDecl) (taken : Set Nat) (e : EdgeDecl) (l : Nat) : Prop where
  /-- It is the first free edge that is sought. -/
  first : IsFirst es taken e.Seeks l
  /-- It runs between the same nodes. -/
  sameEnds : ∃ e', es[l]? = some e' ∧ e.SameEnds e'

/-- An edge has at most one partner. -/
theorem IsPartner.unique {es : List EdgeDecl} {taken : Set Nat} {e : EdgeDecl} {l l' : Nat}
    (h : IsPartner es taken e l) (h' : IsPartner es taken e l') : l = l' := h.first.unique h'.first

/-- A partner is sought and runs between the same nodes. -/
theorem IsPartner.exists_edge {es : List EdgeDecl} {taken : Set Nat} {e : EdgeDecl} {l : Nat}
    (h : IsPartner es taken e l) : ∃ e', es[l]? = some e' ∧ e.Seeks e' ∧ e.SameEnds e' := by
  obtain ⟨e', he', hs⟩ := h.first.holds
  obtain ⟨e'', he'', hsame⟩ := h.sameEnds
  obtain rfl := Option.some.inj (he'.symm.trans he'')
  exact ⟨e', he', hs, hsame⟩

namespace Correspondence.Table

/-- The table holds the left edges `es` but for those at `taken`, each at the slot of its index. -/
structure Remains (t : Table) (es : List EdgeDecl) (taken : Set Nat) : Prop where
  /-- The indexes agree with the slots. -/
  wellFormed : t.WellFormed
  /-- The live slots. -/
  get?_iff : ∀ slot c, t.get? slot = some c ↔
    slot ∉ taken ∧ ∃ e, es[slot]? = some e ∧ c = e.correspondence .left slot

theorem Holds.remains {t : Table} {es : List EdgeDecl}
    (h : t.Holds (es.zipIdx.map fun (e, l) => e.correspondence .left l)) : t.Remains es ∅ := by
  refine ⟨h.wellFormed, fun slot c => ?_⟩
  rw [h.get?, List.getElem?_map, List.getElem?_zipIdx]
  cases es[slot]? with
  | none => simp
  | some e => simp [eq_comm]

/-- Each correspondence has the number of its slot as its left index. -/
theorem Remains.left_eq {t : Table} {es : List EdgeDecl} {taken : Set Nat} (h : t.Remains es taken)
    {slot : Nat} {c : Correspondence} (hc : t.get? slot = some c) : c.left = some slot := by
  obtain ⟨-, e, -, rfl⟩ := (h.get?_iff slot c).mp hc
  rfl

theorem Remains.erase {t : Table} {es : List EdgeDecl} {taken : Set Nat} (h : t.Remains es taken)
    (slot : Nat) : (t.erase slot).Remains es (Insert.insert slot taken) := by
  refine ⟨h.wellFormed.erase slot, fun other c => ?_⟩
  rw [get?_erase, Set.mem_insert_iff, not_or]
  by_cases heq : other = slot
  · simp [heq]
  · rw [if_neg heq, h.get?_iff]
    simp [heq]

/-- The first live slot with a property is that of the first free edge with the property. -/
theorem Remains.isFirst_iff {t : Table} {es : List EdgeDecl} {taken : Set Nat}
    (h : t.Remains es taken) {q : Correspondence → Prop} {p : EdgeDecl → Prop}
    (hq : ∀ e l, q (e.correspondence .left l) ↔ p e) (slot : Nat) :
    ((∃ c, t.get? slot = some c ∧ q c) ∧ ∀ other < slot, ∀ c, t.get? other = some c → ¬ q c) ↔
      IsFirst es taken p slot := by
  simp only [h.get?_iff]
  constructor
  · rintro ⟨⟨_, ⟨hfree, e, he, rfl⟩, hslot⟩, hmin⟩
    refine ⟨hfree, ⟨e, he, (hq e slot).mp hslot⟩, fun other hlt hother e' he' hp => ?_⟩
    exact hmin other hlt _ ⟨hother, e', he', rfl⟩ ((hq e' other).mpr hp)
  · intro hfirst
    obtain ⟨e, he, hp⟩ := hfirst.holds
    refine ⟨⟨_, ⟨hfirst.free, e, he, rfl⟩, (hq e slot).mpr hp⟩, ?_⟩
    rintro other hlt _ ⟨hother, e', he', rfl⟩ hother'
    exact hfirst.first other hlt hother e' he' ((hq e' other).mp hother')

/-- A search by name finds the first free edge of that name. -/
theorem Remains.findId?_iff {t : Table} {es : List EdgeDecl} {taken : Set Nat}
    (h : t.Remains es taken) (id : String) (slot : Nat) :
    t.findId? id = some slot ↔ IsFirst es taken (·.name = id) slot := by
  rw [h.wellFormed.findId?_eq_some_iff]
  exact h.isFirst_iff (q := (·.id = id)) (fun _ _ => Iff.rfl) slot

/-- A search by ends finds the first free edge between them. -/
theorem Remains.findEnds?_iff {t : Table} {es : List EdgeDecl} {taken : Set Nat}
    (h : t.Remains es taken) (source target : String) (slot : Nat) :
    t.findEnds? source target = some slot ↔
      IsFirst es taken (fun e => e.source = source ∧ e.target = target) slot := by
  rw [h.wellFormed.findEnds?_eq_some_iff]
  refine h.isFirst_iff (q := (·.ends? = some (source, target))) (fun e l => ?_) slot
  simp [EdgeDecl.correspondence, Correspondence.ends?]

/-- The slot that an edge of the right side finds first. -/
def search? (t : Table) (e : EdgeDecl) : Option Nat :=
  match e.id with
  | some id => t.findId? id
  | none => t.findEnds? e.source e.target

theorem partner?_eq (t : Table) (e : EdgeDecl) :
    e.partner? t = (t.search? e).bind fun slot => (t.get? slot).bind fun c => c.left.bind fun l =>
      if c.connects e.source e.target then some (slot, l) else none := by
  unfold EdgeDecl.partner? search?
  cases e.id <;> rfl

/-- A search finds the first free edge that is sought. -/
theorem Remains.search?_iff {t : Table} {es : List EdgeDecl} {taken : Set Nat}
    (h : t.Remains es taken) (e : EdgeDecl) (slot : Nat) :
    t.search? e = some slot ↔ IsFirst es taken e.Seeks slot := by
  unfold search? EdgeDecl.Seeks
  cases e.id with
  | some id => exact h.findId?_iff id slot
  | none => exact h.findEnds?_iff e.source e.target slot

/-- **The search over the table finds the partner.** -/
theorem Remains.partner?_iff {t : Table} {es : List EdgeDecl} {taken : Set Nat}
    (h : t.Remains es taken) (e : EdgeDecl) (slot l : Nat) :
    e.partner? t = some (slot, l) ↔ slot = l ∧ IsPartner es taken e l := by
  have hconnects (e' : EdgeDecl) (l : Nat) :
      (e'.correspondence .left l).connects e.source e.target = true ↔ e.SameEnds e' := by
    simp [EdgeDecl.correspondence, Correspondence.connects, EdgeDecl.SameEnds]
  rw [partner?_eq]
  simp only [Option.bind_eq_some_iff, h.search?_iff, h.get?_iff]
  constructor
  · rintro ⟨slot', hfirst, _, ⟨-, e', he', rfl⟩, l', hl', hif⟩
    obtain rfl : slot' = l' := by simpa [EdgeDecl.correspondence] using hl'
    by_cases hc : (e'.correspondence .left slot').connects e.source e.target = true
    · rw [if_pos hc, Option.some.injEq, Prod.mk.injEq] at hif
      obtain ⟨rfl, rfl⟩ := hif
      exact ⟨rfl, hfirst, e', he', (hconnects e' _).mp hc⟩
    · rw [if_neg hc] at hif
      cases hif
  · rintro ⟨rfl, hp⟩
    obtain ⟨e', he', hsame⟩ := hp.sameEnds
    refine ⟨slot, hp.first, _, ⟨hp.first.free, e', he', rfl⟩, slot,
      by simp [EdgeDecl.correspondence], ?_⟩
    rw [if_pos ((hconnects e' slot).mpr hsame)]

end Correspondence.Table

namespace Delta

/-- The pairing with one more preserved edge at its head. -/
def Pairing.pair (p : Pairing) (edge : Preserved) (name : String) : Pairing :=
  { p with
    preserved := edge :: p.preserved
    events := .preservedEdge name edge.left edge.right :: p.events }

/-- The pairing with one more edge without a partner at its head. -/
def Pairing.add (p : Pairing) (edge : Correspondence) : Pairing :=
  { p with unpaired := edge :: p.unpaired }

/-- How edges of the right side are paired with the left edges `es`, when those at `taken` are
taken. -/
inductive Paired (lhs rhs : Graph) (es : List EdgeDecl) :
    Set Nat → List (EdgeDecl × Nat) → Pairing → Prop
  /-- No edge is left to pair. -/
  | nil {taken : Set Nat} {t : Table} :
      t.Remains es taken → Paired lhs rhs es taken [] ⟨[], [], t, []⟩
  /-- The next edge takes its partner. -/
  | pair {taken : Set Nat} {e : EdgeDecl} {r l : Nat} {rest : List (EdgeDecl × Nat)} {p : Pairing} :
      IsPartner es taken e l → Paired lhs rhs es (insert l taken) rest p →
      Paired lhs rhs es taken ((e, r) :: rest)
        (p.pair ⟨l, r, lhs.edgeLabel? l ≠ rhs.edgeLabel? r⟩ e.name)
  /-- The next edge has no partner. -/
  | add {taken : Set Nat} {e : EdgeDecl} {r : Nat} {rest : List (EdgeDecl × Nat)} {p : Pairing} :
      (∀ l, ¬ IsPartner es taken e l) → Paired lhs rhs es taken rest p →
      Paired lhs rhs es taken ((e, r) :: rest) (p.add (e.correspondence .right r))

/-- The loop over the table pairs the edges. -/
theorem paired_pairEdges (lhs rhs : Graph) {es : List EdgeDecl} {taken : Set Nat} {t : Table}
    (h : t.Remains es taken) (list : List (EdgeDecl × Nat)) :
    Paired lhs rhs es taken list (pairEdges lhs rhs t list) := by
  induction list generalizing t taken with
  | nil => exact .nil h
  | cons next rest ih =>
    obtain ⟨e, r⟩ := next
    rw [pairEdges]
    cases hp : e.partner? t with
    | none =>
      refine .add (fun l hl => ?_) (ih h)
      rw [(h.partner?_iff e l l).mpr ⟨rfl, hl⟩] at hp
      cases hp
    | some found =>
      obtain ⟨slot, l⟩ := found
      obtain ⟨rfl, hpartner⟩ := (h.partner?_iff e slot l).mp hp
      exact .pair hpartner (ih (h.erase slot))

/-! ### What the loop keeps -/

namespace Paired

variable {lhs rhs : Graph} {es : List EdgeDecl} {taken : Set Nat} {list : List (EdgeDecl × Nat)}
  {p : Pairing}

/-- Only free left edges are taken. -/
theorem left_notMem (h : Paired lhs rhs es taken list p) {q : Preserved} (hq : q ∈ p.preserved) :
    q.left ∉ taken := by
  induction h with
  | nil => cases hq
  | pair hp _ ih =>
    rcases List.mem_cons.mp hq with rfl | hq
    · exact hp.first.free
    · exact fun hmem => ih hq (Set.mem_insert_of_mem _ hmem)
  | add _ _ ih => exact ih hq

/-- No left edge is taken twice. -/
theorem nodup_left (h : Paired lhs rhs es taken list p) : (p.preserved.map (·.left)).Nodup := by
  induction h with
  | nil => exact List.nodup_nil
  | @pair taken e r l rest p hp hrest ih =>
    rw [Pairing.pair, List.map_cons, List.nodup_cons]
    refine ⟨fun hmem => ?_, ih⟩
    obtain ⟨q, hq, hl⟩ := List.mem_map.mp hmem
    exact hrest.left_notMem hq (hl ▸ Set.mem_insert l taken)
  | add _ _ ih => exact ih

/-- What remains in the table is not taken. -/
theorem remains (h : Paired lhs rhs es taken list p) :
    p.remaining.Remains es (taken ∪ {l | ∃ q ∈ p.preserved, q.left = l}) := by
  induction h with
  | nil ht => simpa using ht
  | @pair taken e r l rest p _ _ ih =>
    have heq : insert l taken ∪ {l | ∃ q ∈ p.preserved, q.left = l} =
        taken ∪ {l' | ∃ q ∈ (p.pair ⟨l, r, lhs.edgeLabel? l ≠ rhs.edgeLabel? r⟩ e.name).preserved,
          q.left = l'} := by
      ext l'
      simp only [Pairing.pair, Set.mem_union, Set.mem_insert_iff, Set.mem_ofPred_eq,
        List.exists_mem_cons_iff]
      tauto
    exact heq ▸ ih
  | add _ _ ih => exact ih

/-- Every edge of the right side is paired or not, and none is both or twice. -/
theorem perm_right (h : Paired lhs rhs es taken list p) :
    (p.preserved.map (·.right) ++ p.unpaired.filterMap (·.right)).Perm (list.map (·.2)) := by
  induction h with
  | nil => exact .nil
  | pair _ _ ih => exact ih.cons _
  | add _ _ ih => exact List.perm_middle.trans (ih.cons _)

/-- The edges without a partner keep their order. -/
theorem unpaired_sublist (h : Paired lhs rhs es taken list p) :
    (p.unpaired.filterMap (·.right)).Sublist (list.map (·.2)) := by
  induction h with
  | nil => exact .refl _
  | pair _ _ ih => exact ih.cons _
  | add _ _ ih => exact ih.cons_cons _

/-- What is not paired is an edge of the right side. -/
theorem exists_of_unpaired (h : Paired lhs rhs es taken list p) {c : Correspondence}
    (hc : c ∈ p.unpaired) : ∃ e r, (e, r) ∈ list ∧ c = e.correspondence .right r := by
  induction h with
  | nil => cases hc
  | pair _ _ ih =>
    obtain ⟨e, r, her, heq⟩ := ih hc
    exact ⟨e, r, List.mem_cons_of_mem _ her, heq⟩
  | add _ _ ih =>
    rcases List.mem_cons.mp hc with rfl | hc
    · exact ⟨_, _, List.mem_cons_self, rfl⟩
    · obtain ⟨e, r, her, heq⟩ := ih hc
      exact ⟨e, r, List.mem_cons_of_mem _ her, heq⟩

/-- Every pair is one of an edge of the right side. -/
theorem exists_mem (h : Paired lhs rhs es taken list p) {q : Preserved} (hq : q ∈ p.preserved) :
    ∃ e, (e, q.right) ∈ list := by
  have hmem := h.perm_right.subset (List.mem_append_left _ (List.mem_map_of_mem hq))
  obtain ⟨⟨e, r⟩, her, rfl⟩ := List.mem_map.mp hmem
  exact ⟨e, her⟩

end Paired

/-! ### What an edge finds taken -/

/-- The left edges that the pairs give to edges of the right side before `r`. -/
def takenBefore (pairs : List Preserved) (r : Nat) : Set Nat :=
  {l | ∃ q ∈ pairs, q.left = l ∧ q.right < r}

/-- A pair at the head was made before all others. -/
theorem takenBefore_cons_of_lt {q : Preserved} {r : Nat} (h : q.right < r)
    (pairs : List Preserved) :
    takenBefore (q :: pairs) r = insert q.left (takenBefore pairs r) := by
  ext l
  simp only [takenBefore, Set.mem_ofPred_eq, List.exists_mem_cons_iff, Set.mem_insert_iff]
  constructor
  · rintro (⟨rfl, -⟩ | hpairs)
    · exact Or.inl rfl
    · exact Or.inr hpairs
  · rintro (rfl | hpairs)
    · exact Or.inl ⟨rfl, h⟩
    · exact Or.inr hpairs

/-- A pair at the head is not made before the edge that it pairs. -/
theorem takenBefore_cons_of_le {q : Preserved} {r : Nat} (h : r ≤ q.right)
    (pairs : List Preserved) : takenBefore (q :: pairs) r = takenBefore pairs r := by
  ext l
  simp only [takenBefore, Set.mem_ofPred_eq, List.exists_mem_cons_iff, Nat.not_lt.mpr h,
    and_false, false_or]

/-- What the pair at the head takes may be counted as taken from the start. -/
theorem union_takenBefore_cons {q : Preserved} {r : Nat} (h : q.right < r) (pairs : List Preserved)
    (taken : Set Nat) :
    taken ∪ takenBefore (q :: pairs) r = insert q.left taken ∪ takenBefore pairs r := by
  rw [takenBefore_cons_of_lt h, Set.union_insert, Set.insert_union]

/-- Nothing is taken before the first edge of the right side. -/
theorem union_takenBefore {pairs : List Preserved} {r : Nat} (h : ∀ q ∈ pairs, r ≤ q.right)
    (taken : Set Nat) : taken ∪ takenBefore pairs r = taken := by
  rw [Set.union_eq_left]
  rintro l ⟨q, hq, -, hlt⟩
  exact absurd hlt (Nat.not_lt.mpr (h q hq))

/-- Edges come in the order of their indices. -/
theorem pairwise_zipIdx (es : List EdgeDecl) : es.zipIdx.Pairwise (·.2 < ·.2) := by
  rw [← List.pairwise_map, List.zipIdx_map_snd]
  exact List.pairwise_lt_range'

/-- The pair is one of an edge of the list and its partner, when besides the left edges at `taken`
those are taken that `pairs` gives to edges before it. -/
def Chosen (lhs rhs : Graph) (es : List EdgeDecl) (taken : Set Nat) (list : List (EdgeDecl × Nat))
    (pairs : List Preserved) (q : Preserved) : Prop :=
  ∃ e, (e, q.right) ∈ list ∧ IsPartner es (taken ∪ takenBefore pairs q.right) e q.left ∧
    q.relabelled = decide (lhs.edgeLabel? q.left ≠ rhs.edgeLabel? q.right)

namespace Paired

variable {lhs rhs : Graph} {es : List EdgeDecl} {taken : Set Nat} {e : EdgeDecl} {r : Nat}
  {rest list : List (EdgeDecl × Nat)} {p : Pairing}

/-- Nothing more is taken when the edge before the rest is looked at. -/
theorem union_takenBefore_head (h : Paired lhs rhs es taken rest p) (hlt : ∀ c ∈ rest, r < c.2)
    (taken' : Set Nat) : taken' ∪ takenBefore p.preserved r = taken' := by
  refine union_takenBefore (fun q hq => ?_) taken'
  obtain ⟨e', he'⟩ := h.exists_mem hq
  exact (hlt _ he').le

/-- When the next edge takes its partner, the chosen pairs are this one and those chosen from what
is left. -/
theorem chosen_pair_iff {l : Nat} {head : Preserved}
    (heq : head = ⟨l, r, lhs.edgeLabel? l ≠ rhs.edgeLabel? r⟩) (hp : IsPartner es taken e l)
    (hlt : ∀ c ∈ rest, r < c.2) (hrest : Paired lhs rhs es (insert l taken) rest p)
    {q : Preserved} :
    Chosen lhs rhs es taken ((e, r) :: rest) (head :: p.preserved) q ↔
      q = head ∨ Chosen lhs rhs es (insert l taken) rest p.preserved q := by
  subst heq
  set head : Preserved := ⟨l, r, lhs.edgeLabel? l ≠ rhs.edgeLabel? r⟩
  have hlater {r' : Nat} (hr' : r < r') :
      taken ∪ takenBefore (head :: p.preserved) r' = insert l taken ∪ takenBefore p.preserved r' :=
    union_takenBefore_cons hr' p.preserved taken
  have hhead : taken ∪ takenBefore (head :: p.preserved) r = taken := by
    rw [takenBefore_cons_of_le le_rfl, hrest.union_takenBefore_head hlt]
  constructor
  · rintro ⟨e', he', hp', hrel⟩
    rcases List.mem_cons.mp he' with heq | he'
    · obtain ⟨rfl, hr⟩ := Prod.mk.inj heq
      rw [hr, hhead] at hp'
      obtain rfl := hp.unique hp'
      obtain ⟨left, right, relabelled⟩ := q
      obtain rfl : right = r := hr
      exact Or.inl (congrArg (Preserved.mk left right) hrel)
    · rw [hlater (hlt _ he')] at hp'
      exact Or.inr ⟨e', he', hp', hrel⟩
  · rintro (rfl | ⟨e', he', hp', hrel⟩)
    · exact ⟨e, List.mem_cons_self, by rw [hhead]; exact hp, rfl⟩
    · exact ⟨e', List.mem_cons_of_mem _ he', by rw [hlater (hlt _ he')]; exact hp', hrel⟩

/-- When the next edge has no partner, the chosen pairs are those chosen from the rest. -/
theorem chosen_add_iff (hnone : ∀ l, ¬ IsPartner es taken e l) (hlt : ∀ c ∈ rest, r < c.2)
    (hrest : Paired lhs rhs es taken rest p) {q : Preserved} :
    Chosen lhs rhs es taken ((e, r) :: rest) p.preserved q ↔
      Chosen lhs rhs es taken rest p.preserved q := by
  have hhead := hrest.union_takenBefore_head hlt taken
  constructor
  · rintro ⟨e', he', hp', hrel⟩
    rcases List.mem_cons.mp he' with heq | he'
    · obtain ⟨rfl, hr⟩ := Prod.mk.inj heq
      rw [hr, hhead] at hp'
      exact absurd hp' (hnone _)
    · exact ⟨e', he', hp', hrel⟩
  · rintro ⟨e', he', hp', hrel⟩
    exact ⟨e', List.mem_cons_of_mem _ he', hp', hrel⟩

/-- **The law of pairing**: an edge of the right side is preserved with a left edge exactly if that
is its partner when the partners of the edges before it are taken. -/
theorem mem_preserved_iff (h : Paired lhs rhs es taken list p) (hsorted : list.Pairwise (·.2 < ·.2))
    {q : Preserved} : q ∈ p.preserved ↔ Chosen lhs rhs es taken list p.preserved q := by
  induction h with
  | nil => simp [Chosen]
  | pair hp hrest ih =>
    rw [List.pairwise_cons] at hsorted
    rw [Pairing.pair, chosen_pair_iff rfl hp hsorted.1 hrest, List.mem_cons, ih hsorted.2]
  | add hnone hrest ih =>
    rw [List.pairwise_cons] at hsorted
    rw [Pairing.add, chosen_add_iff hnone hsorted.1 hrest, ih hsorted.2]

end Paired

end Delta

end GraphTransform
