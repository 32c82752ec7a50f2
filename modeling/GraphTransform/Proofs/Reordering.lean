import GraphTransform.Proofs.Identity
import GraphTransform.Proofs.Partition
import GraphTransform.Proofs.Violations

/-!
# The order of the edges of the right side

The edges of the right side are paired in their order. An edge without an identifier takes the first
left edge left between its ends, even if that has an identifier which a later edge carries; so the
order decides how many edges are preserved, and which are deleted.

A reordered declaration always lowers (`exists_lower_withRightEdges`). Suppose that no name made up
on the left is an identifier on the right. Then certain left edges are kept in every order
(`RuleDecl.Forced`): those with a counterpart on the right, and for each pair of ends the first left
edges between them, as many as there are edges without an identifier between them on the right
(`RuleDecl.early`). No others are kept if the edges without an identifier come first. If they come
last, they take none that has a counterpart, and so they may take others. Hence the order does not
matter exactly if, for each pair of ends, none of the early edges has a counterpart or all the
others have one (`RuleDecl.OrderFree`, `sameEdges_iff_orderFree`).
-/

namespace GraphTransform

open Delta (takenBefore)

/-! ### Statements -/

/-- The declaration with other edges on the right side. -/
def RuleDecl.withRightEdges (d : RuleDecl) (es : List EdgeDecl) : RuleDecl :=
  { d with rhs := { d.rhs with edges := es } }

/-- The rules preserve and add equally many edges and delete the same ones. -/
structure Rule.SameEdges (r r' : Rule) : Prop where
  /-- The number of preserved edges. -/
  preserved : r'.preservedEdges.length = r.preservedEdges.length
  /-- The number of added edges. -/
  added : r'.addedEdges.length = r.addedEdges.length
  /-- The deleted edges. -/
  deleted : ∀ i, i ∈ r'.deletedEdges ↔ i ∈ r.deletedEdges

namespace RuleDecl

variable (d : RuleDecl)

/-- The left edges from `s` to `t`, by their indices in ascending order. -/
def leftBetween (s t : String) : List Nat :=
  d.lhs.edges.findIdxs fun e => e.source = s ∧ e.target = t

/-- The edges from `s` to `t` of the right side that carry no identifier, by their indices. -/
def anonymousBetween (s t : String) : List Nat :=
  d.rhs.edges.findIdxs fun e => e.id = none ∧ e.source = s ∧ e.target = t

/-- The first left edges from `s` to `t`, as many as there are edges without an identifier on the
right side. -/
def early (s t : String) : List Nat := (d.leftBetween s t).take (d.anonymousBetween s t).length

/-- The left edge at `l` is the counterpart of an edge of the right side that carries its
identifier. -/
def HasCounterpart (l : Nat) : Prop :=
  ∃ e ∈ d.rhs.edges, ∃ id, e.id = some id ∧ IsCounterpart d.lhs.edges e id l

/-- The left edge at `l` is kept in every order. -/
def Forced (l : Nat) : Prop := (∃ s t, l ∈ d.early s t) ∨ d.HasCounterpart l

/-- Between any two ends, no early edge has a counterpart, or all other edges have one. -/
def OrderFree : Prop := ∀ s t, (∀ l ∈ d.early s t, ¬ d.HasCounterpart l) ∨
  ∀ l ∈ d.leftBetween s t, l ∉ d.early s t → d.HasCounterpart l

/-- No name made up on the left side is an identifier on the right side. -/
def NamesApart : Prop := ∀ e ∈ d.lhs.edges, e.id = none → e.name ∉ d.rhs.edgeIds

end RuleDecl

/-! ### Lists of indices -/

/-- Indices that are each related to one of some others, no two of them to the same, are no more
than those. -/
theorem length_le_of_related {R : Nat → Nat → Prop} {xs ys : List Nat} (hxs : xs.Nodup)
    (hR : ∀ x ∈ xs, ∃ y ∈ ys, R x y) (hinj : ∀ x x' y, R x y → R x' y → x = x') :
    xs.length ≤ ys.length := by
  choose! f hf using hR
  have hnodup : (xs.map f).Nodup := hxs.map_on fun x hx x' hx' heq =>
    hinj x x' (f x) (hf x hx).2 (heq ▸ (hf x' hx').2)
  have hsub : xs.map f ⊆ ys := by
    intro y hy
    obtain ⟨x, hx, rfl⟩ := List.mem_map.mp hy
    exact (hf x hx).1
  rw [← List.length_map f]
  exact (List.subperm_of_subset hnodup hsub).length_le

/-- Of increasing indices, those that are not among the first come after them. -/
theorem lt_of_notMem_take {xs : List Nat} (h : xs.Pairwise (· < ·)) {n m l : Nat}
    (hm : m ∈ xs.take n) (hl : l ∈ xs) (hlate : l ∉ xs.take n) : m < l := by
  rw [← List.take_append_drop n xs, List.pairwise_append] at h
  rw [← List.take_append_drop n xs, List.mem_append] at hl
  exact h.2.2 m hm l (hl.resolve_left hlate)

/-- Of increasing indices, fewer come before one of the first. -/
theorem length_filter_lt_of_mem_take {xs : List Nat} (h : xs.Pairwise (· < ·)) {n l : Nat}
    (hl : l ∈ xs.take n) : (xs.filter (· < l)).length < n := by
  have hlater : (xs.drop n).filter (· < l) = [] := by
    rw [← List.take_append_drop n xs, List.pairwise_append] at h
    rw [List.filter_eq_nil_iff]
    exact fun m hm => by simpa using (h.2.2 l hl m hm).le
  have hearlier : ((xs.take n).filter (· < l)).length < (xs.take n).length :=
    List.length_filter_lt_length_iff_exists.mpr ⟨l, hl, by simp⟩
  have hsplit : xs.filter (· < l) = (xs.take n).filter (· < l) := by
    conv_lhs => rw [← List.take_append_drop n xs, List.filter_append, hlater, List.append_nil]
  rw [hsplit]
  exact hearlier.trans_le (List.length_take_le n xs)

theorem rel_of_pairwise {α : Type} {R : α → α → Prop} {xs : List α} (h : xs.Pairwise R) {i j : Nat}
    {x y : α} (hx : xs[i]? = some x) (hy : xs[j]? = some y) (hlt : i < j) : R x y := by
  obtain ⟨hi, rfl⟩ := List.getElem?_eq_some_iff.mp hx
  obtain ⟨hj, rfl⟩ := List.getElem?_eq_some_iff.mp hy
  exact List.pairwise_iff_getElem.mp h i j hi hj hlt

/-- A list can be reordered so that the entries with a property come first. -/
theorem exists_perm_pairwise {α : Type} (p : α → Prop) [DecidablePred p] (xs : List α) :
    ∃ ys : List α, ys.Perm xs ∧ ys.Pairwise fun x y => p y → p x := by
  refine ⟨xs.filter p ++ xs.filter (!p ·), List.filter_append_perm _ xs,
    List.pairwise_append.mpr ⟨?_, ?_, ?_⟩⟩
  · exact List.pairwise_of_forall_mem_list fun x hx _ _ _ =>
      by simpa using (List.mem_filter.mp hx).2
  · exact List.pairwise_of_forall_mem_list fun _ _ y hy hpy =>
      absurd hpy (by simpa using (List.mem_filter.mp hy).2)
  · exact fun x hx _ _ _ => by simpa using (List.mem_filter.mp hx).2

namespace RuleDecl

variable {d : RuleDecl} {s t : String}

theorem mem_leftBetween_iff {l : Nat} :
    l ∈ d.leftBetween s t ↔ ∃ e, d.lhs.edges[l]? = some e ∧ e.source = s ∧ e.target = t := by
  rw [leftBetween, List.mem_findIdxs_iff_exists_getElem_pos]
  simp [List.getElem?_eq_some_iff]

theorem mem_anonymousBetween_iff {k : Nat} : k ∈ d.anonymousBetween s t ↔
    ∃ e, d.rhs.edges[k]? = some e ∧ e.id = none ∧ e.source = s ∧ e.target = t := by
  rw [anonymousBetween, List.mem_findIdxs_iff_exists_getElem_pos]
  simp [List.getElem?_eq_some_iff]

theorem pairwise_leftBetween : (d.leftBetween s t).Pairwise (· < ·) := List.pairwise_findIdxs

theorem mem_leftBetween_of_early {l : Nat} (h : l ∈ d.early s t) : l ∈ d.leftBetween s t :=
  List.mem_of_mem_take h

theorem eq_of_mem_leftBetween {s' t' : String} {l : Nat} (h : l ∈ d.leftBetween s t)
    (h' : l ∈ d.leftBetween s' t') : s = s' ∧ t = t' := by
  obtain ⟨e, he, rfl, rfl⟩ := mem_leftBetween_iff.mp h
  obtain ⟨e', he', rfl, rfl⟩ := mem_leftBetween_iff.mp h'
  obtain rfl := Option.some.inj (he.symm.trans he')
  exact ⟨rfl, rfl⟩

/-- If there are more left edges, then as many are early as there are edges without an
identifier. -/
theorem length_early_of_late {l : Nat} (hl : l ∈ d.leftBetween s t) (hlate : l ∉ d.early s t) :
    (d.early s t).length = (d.anonymousBetween s t).length := by
  have hlt : (d.anonymousBetween s t).length < (d.leftBetween s t).length := by
    by_contra hge
    rw [early, List.take_of_length_le (Nat.le_of_not_lt hge)] at hlate
    exact hlate hl
  rw [early, List.length_take, Nat.min_eq_left hlt.le]

end RuleDecl

/-! ### Partners -/

/-- The partner of an edge whose identifier is no made-up name is its counterpart, if that is
free. -/
theorem isPartner_iff_isCounterpart {es : List EdgeDecl} {taken : Set Nat} {e : EdgeDecl}
    {id : String} (hid : e.id = some id) (hnodup : (es.filterMap (·.id)).Nodup)
    (hname : ∀ e' ∈ es, e'.id = none → e'.name ≠ id) {l : Nat} :
    IsPartner es taken e l ↔ l ∉ taken ∧ IsCounterpart es e id l := by
  have hcarries {l' : Nat} (hfirst : IsFirst es taken (·.name = id) l') :
      ∃ e', es[l']? = some e' ∧ e'.id = some id := by
    obtain ⟨e', he', hname'⟩ := hfirst.holds
    refine ⟨e', he', (EdgeDecl.id_eq_of_name hname').resolve_right fun hnone => ?_⟩
    exact hname e' (List.mem_of_getElem? he') hnone hname'
  rw [isPartner_iff_of_id hid]
  constructor
  · rintro ⟨hfirst, e', he', hsame⟩
    obtain ⟨e'', he'', hid'⟩ := hcarries hfirst
    obtain rfl := Option.some.inj (he'.symm.trans he'')
    exact ⟨hfirst.free, e', he', hid', hsame⟩
  · rintro ⟨hfree, e', he', hid', hsame⟩
    obtain ⟨l', hfirst⟩ :=
      exists_isFirst (p := (·.name = id)) hfree he' (EdgeDecl.name_eq_of_id hid')
    obtain ⟨e'', he'', hid''⟩ := hcarries hfirst
    obtain rfl := eq_of_id hnodup he' he'' hid' hid''
    exact ⟨hfirst, e', he', hsame⟩

/-! ### Pairs -/

/-- The left edge at `l` is preserved with the edge at `k` of the right side. -/
def Rule.Pairs (r : Rule) (l k : Nat) : Prop := ∃ q ∈ r.preservedEdges, q.right = k ∧ q.left = l

/-- The left edge at `l` is preserved. -/
def Rule.Keeps (r : Rule) (l : Nat) : Prop := ∃ k, r.Pairs l k

theorem mem_takenBefore_iff {r : Rule} {l k : Nat} :
    l ∈ takenBefore r.preservedEdges k ↔ ∃ k' < k, r.Pairs l k' := by
  constructor
  · rintro ⟨q, hq, hl, hk⟩
    exact ⟨q.right, hk, q, hq, rfl, hl⟩
  · rintro ⟨k', hk, q, hq, rfl, hl⟩
    exact ⟨q, hq, hl, hk⟩

namespace Lowered

section Pairs

variable {d : RuleDecl} {r : Rule} (h : Lowered d r) {l l' k k' : Nat}

include h

theorem exists_edge_of_pairs (hp : r.Pairs l k) :
    ∃ e, d.rhs.edges[k]? = some e ∧ IsPartner d.lhs.edges (takenBefore r.preservedEdges k) e l := by
  obtain ⟨q, hq, rfl, rfl⟩ := hp
  exact (h.mem_preservedEdges_iff.mp hq).1

theorem left_eq_of_pairs (hp : r.Pairs l k) (hp' : r.Pairs l' k) : l = l' := by
  obtain ⟨e, he, hl⟩ := h.exists_edge_of_pairs hp
  exact hl.unique ((h.exists_preservedEdge_iff he).mp hp')

theorem right_eq_of_pairs (hp : r.Pairs l k) (hp' : r.Pairs l k') : k = k' := by
  obtain ⟨q, hq, rfl, hl⟩ := hp
  obtain ⟨q', hq', rfl, hl'⟩ := hp'
  rw [List.inj_on_of_nodup_map h.nodup_preservedEdges_left hq hq' (hl.trans hl'.symm)]

/-- An edge without an identifier that is preserved takes a left edge between its ends, and those
before it are taken already. -/
theorem taken_of_pairs_of_none (hp : r.Pairs l k) {e : EdgeDecl} (he : d.rhs.edges[k]? = some e)
    (hid : e.id = none) :
    l ∈ d.leftBetween e.source e.target ∧
      ∀ m ∈ d.leftBetween e.source e.target, m < l → ∃ k' < k, r.Pairs m k' := by
  have hfirst := (isPartner_iff_of_none hid).mp ((h.exists_preservedEdge_iff he).mp hp)
  refine ⟨RuleDecl.mem_leftBetween_iff.mpr hfirst.holds, fun m hm hlt => ?_⟩
  obtain ⟨e', he', hsame⟩ := RuleDecl.mem_leftBetween_iff.mp hm
  by_contra hfree
  exact hfirst.first m hlt (mt mem_takenBefore_iff.mp hfree) e' he' hsame

/-- As long as a left edge between its ends is free, an edge without an identifier finds one. -/
theorem exists_pairs_of_not_keeps {s t : String} (hl : l ∈ d.leftBetween s t) (hfree : ¬ r.Keeps l)
    (hk : k ∈ d.anonymousBetween s t) : ∃ m ∈ d.leftBetween s t, m < l ∧ r.Pairs m k := by
  obtain ⟨e, he, hid, rfl, rfl⟩ := RuleDecl.mem_anonymousBetween_iff.mp hk
  obtain ⟨e', he', hsame⟩ := RuleDecl.mem_leftBetween_iff.mp hl
  have hnot : l ∉ takenBefore r.preservedEdges k := fun hmem =>
    have ⟨k', _, hp⟩ := mem_takenBefore_iff.mp hmem
    hfree ⟨k', hp⟩
  obtain ⟨m, hm⟩ := exists_isFirst (p := e.SameEnds) hnot he' hsame
  have hp : r.Pairs m k := (h.exists_preservedEdge_iff he).mpr ((isPartner_iff_of_none hid).mpr hm)
  refine ⟨m, RuleDecl.mem_leftBetween_iff.mpr hm.holds, ?_, hp⟩
  rcases lt_trichotomy m l with hlt | rfl | hlt
  · exact hlt
  · exact absurd ⟨k, hp⟩ hfree
  · exact absurd hsame (hm.first l hlt hnot e' he')

/-- **The early edges are kept.** If one were not, every edge without an identifier would take one
before it, but there are more of those. -/
theorem keeps_of_early {s t : String} (hl : l ∈ d.early s t) : r.Keeps l := by
  by_contra hfree
  have hle : (d.anonymousBetween s t).length ≤ ((d.leftBetween s t).filter (· < l)).length := by
    refine length_le_of_related (R := fun k m => r.Pairs m k) List.nodup_findIdxs (fun k hk => ?_)
      fun _ _ _ hp hp' => h.right_eq_of_pairs hp hp'
    obtain ⟨m, hm, hlt, hp⟩ :=
      h.exists_pairs_of_not_keeps (RuleDecl.mem_leftBetween_of_early hl) hfree hk
    exact ⟨m, List.mem_filter.mpr ⟨hm, by simpa using hlt⟩, hp⟩
  exact absurd (length_filter_lt_of_mem_take RuleDecl.pairwise_leftBetween hl) (Nat.not_lt.mpr hle)

/-- An edge without an identifier takes another left edge than an early one only if an edge with an
identifier has taken an early one before. -/
theorem exists_named_of_not_early (hp : r.Pairs l k) {e : EdgeDecl} (he : d.rhs.edges[k]? = some e)
    (hid : e.id = none) (hlate : l ∉ d.early e.source e.target) :
    ∃ m ∈ d.early e.source e.target, ∃ k' < k, r.Pairs m k' ∧
      ∀ e', d.rhs.edges[k']? = some e' → e'.id ≠ none := by
  obtain ⟨hl, htaken⟩ := h.taken_of_pairs_of_none hp he hid
  by_contra hnamed
  push Not at hnamed
  have hanonymous : ∀ m ∈ d.early e.source e.target,
      ∃ k' ∈ (d.anonymousBetween e.source e.target).filter (· < k), r.Pairs m k' := by
    intro m hm
    have hmem := RuleDecl.mem_leftBetween_of_early hm
    obtain ⟨k', hlt, hp'⟩ :=
      htaken m hmem (lt_of_notMem_take RuleDecl.pairwise_leftBetween hm hl hlate)
    obtain ⟨e', he', hid'⟩ := hnamed m hm k' hlt hp'
    obtain ⟨hs, ht⟩ := RuleDecl.eq_of_mem_leftBetween (h.taken_of_pairs_of_none hp' he' hid').1 hmem
    refine ⟨k', List.mem_filter.mpr ⟨?_, by simpa using hlt⟩, hp'⟩
    exact RuleDecl.mem_anonymousBetween_iff.mpr ⟨e', he', hid', hs, ht⟩
  -- so all early edges were taken by edges without an identifier before this one, but there are too
  -- few of those
  have hle : (d.early e.source e.target).length ≤
      ((d.anonymousBetween e.source e.target).filter (· < k)).length :=
    length_le_of_related (RuleDecl.pairwise_leftBetween.nodup.sublist (List.take_sublist _ _))
      hanonymous fun _ _ _ hp hp' => h.left_eq_of_pairs hp hp'
  have hlt : ((d.anonymousBetween e.source e.target).filter (· < k)).length <
      (d.anonymousBetween e.source e.target).length :=
    List.length_filter_lt_length_iff_exists.mpr
      ⟨k, RuleDecl.mem_anonymousBetween_iff.mpr ⟨e, he, hid, rfl, rfl⟩, by simp⟩
  rw [RuleDecl.length_early_of_late hl hlate] at hle
  omega

end Pairs

/-! ### Edges that are kept in every order -/

section NamesApart

variable {d : RuleDecl} {r : Rule} (h : Lowered d r) (hname : d.NamesApart) {l k : Nat}
  {e : EdgeDecl} (he : d.rhs.edges[k]? = some e)

include h hname

include he in
theorem pairs_iff_of_id {id : String} (hid : e.id = some id) :
    r.Pairs l k ↔ l ∉ takenBefore r.preservedEdges k ∧ IsCounterpart d.lhs.edges e id l := by
  have hright : id ∈ d.rhs.edgeIds := List.mem_filterMap.mpr ⟨e, List.mem_of_getElem? he, hid⟩
  refine (h.exists_preservedEdge_iff he).trans
    (isPartner_iff_isCounterpart hid h.leftEdgeIds fun e' he' hnone => ?_)
  rintro rfl
  exact hname e' he' hnone hright

include he in
/-- The counterpart of an edge is taken by it, or was taken before. -/
theorem exists_pairs_of_isCounterpart {id : String} (hid : e.id = some id)
    (hc : IsCounterpart d.lhs.edges e id l) : ∃ k' ≤ k, r.Pairs l k' := by
  by_cases hfree : l ∈ takenBefore r.preservedEdges k
  · obtain ⟨k', hlt, hp⟩ := mem_takenBefore_iff.mp hfree
    exact ⟨k', hlt.le, hp⟩
  · exact ⟨k, le_rfl, (h.pairs_iff_of_id hname he hid).mpr ⟨hfree, hc⟩⟩

include he in
/-- An edge with an identifier takes nothing but its counterpart. -/
theorem hasCounterpart_of_pairs (hid : e.id ≠ none) (hp : r.Pairs l k) : d.HasCounterpart l := by
  obtain ⟨id, hid⟩ := Option.ne_none_iff_exists'.mp hid
  exact ⟨e, List.mem_of_getElem? he, id, hid, ((h.pairs_iff_of_id hname he hid).mp hp).2⟩

theorem keeps_of_forced (hforced : d.Forced l) : r.Keeps l := by
  rcases hforced with ⟨s, t, hearly⟩ | ⟨e, he, id, hid, hc⟩
  · exact h.keeps_of_early hearly
  · obtain ⟨k, hk⟩ := List.mem_iff_getElem?.mp he
    obtain ⟨k', -, hp⟩ := h.exists_pairs_of_isCounterpart hname hk hid hc
    exact ⟨k', hp⟩

/-- If another edge is kept, then an edge without an identifier has taken it, before which an edge
with an identifier took an early one between the same nodes. -/
theorem exists_named_of_not_forced (hkeeps : r.Keeps l) (hl : ¬ d.Forced l) :
    ∃ k e, d.rhs.edges[k]? = some e ∧ e.id = none ∧ l ∈ d.leftBetween e.source e.target ∧
      ∃ m ∈ d.early e.source e.target,
      ∃ k' e', d.rhs.edges[k']? = some e' ∧ e'.id ≠ none ∧ k' < k ∧ r.Pairs m k' := by
  obtain ⟨k, hp⟩ := hkeeps
  obtain ⟨e, he, -⟩ := h.exists_edge_of_pairs hp
  have hid : e.id = none := by
    by_contra hid
    exact hl (Or.inr (h.hasCounterpart_of_pairs hname he hid hp))
  have hlate : l ∉ d.early e.source e.target := fun hearly => hl (Or.inl ⟨_, _, hearly⟩)
  obtain ⟨m, hm, k', hlt, hp', hnamed⟩ := h.exists_named_of_not_early hp he hid hlate
  obtain ⟨e', he', -⟩ := h.exists_edge_of_pairs hp'
  exact ⟨k, e, he, hid, (h.taken_of_pairs_of_none hp he hid).1, m, hm, k', e', he',
    hnamed e' he', hlt, hp'⟩

theorem forced_of_orderFree (hfree : d.OrderFree) (hkeeps : r.Keeps l) : d.Forced l := by
  by_contra hl
  obtain ⟨k, e, he, hid, hbetween, m, hm, k', e', he', hid', -, hp'⟩ :=
    h.exists_named_of_not_forced hname hkeeps hl
  rcases hfree e.source e.target with hearly | hlate
  · exact hearly m hm (h.hasCounterpart_of_pairs hname he' hid' hp')
  · exact hl (Or.inr (hlate l hbetween fun hmem => hl (Or.inl ⟨_, _, hmem⟩)))

/-- If the edges without an identifier come first, then no other edges are kept. -/
theorem forced_of_anonymousFirst
    (horder : d.rhs.edges.Pairwise fun e e' => e'.id = none → e.id = none) (hkeeps : r.Keeps l) :
    d.Forced l := by
  by_contra hl
  obtain ⟨k, e, he, hid, -, m, hm, k', e', he', hid', hlt, -⟩ :=
    h.exists_named_of_not_forced hname hkeeps hl
  exact hid' (rel_of_pairwise horder he' he hlt hid)

/-- If the edges without an identifier come last, then all counterparts are taken before they look
for partners. -/
theorem not_hasCounterpart_of_anonymousLast
    (horder : d.rhs.edges.Pairwise fun e e' => e'.id ≠ none → e.id ≠ none) {s t : String}
    (hk : k ∈ d.anonymousBetween s t) (hp : r.Pairs l k) : ¬ d.HasCounterpart l := by
  obtain ⟨e, he, hid, -, -⟩ := RuleDecl.mem_anonymousBetween_iff.mp hk
  rintro ⟨e', he', id, hid', hc⟩
  have hnamed : e'.id ≠ none := Option.ne_none_iff_exists'.mpr ⟨id, hid'⟩
  obtain ⟨k', hk'⟩ := List.mem_iff_getElem?.mp he'
  obtain ⟨k'', hle, hp'⟩ := h.exists_pairs_of_isCounterpart hname hk' hid' hc
  obtain rfl := h.right_eq_of_pairs hp hp'
  rcases hle.eq_or_lt with rfl | hlt
  · obtain rfl := Option.some.inj (he.symm.trans hk')
    exact hnamed hid
  · exact rel_of_pairwise horder he hk' hlt hnamed hid

/-- If the edges without an identifier come last, and no other edges are kept even so, then the
order does not matter: otherwise these edges had to share the early edges that have no counterpart,
and there are too few. -/
theorem orderFree_of_anonymousLast
    (horder : d.rhs.edges.Pairwise fun e e' => e'.id ≠ none → e.id ≠ none)
    (hforced : ∀ l, r.Keeps l → d.Forced l) : d.OrderFree := by
  have hlone {s t : String} {k m : Nat} (hk : k ∈ d.anonymousBetween s t) (hp : r.Pairs m k) :
      ¬ d.HasCounterpart m := h.not_hasCounterpart_of_anonymousLast hname horder hk hp
  intro s t
  by_contra hnot
  push Not at hnot
  obtain ⟨⟨m, hm, hcounter⟩, l, hl, hlate, hl'⟩ := hnot
  have hbetween {l : Nat} (hl : l ∈ d.leftBetween s t) (hkeeps : r.Keeps l)
      (hl' : ¬ d.HasCounterpart l) : l ∈ d.early s t := by
    obtain ⟨s', t', hearly⟩ := (hforced l hkeeps).resolve_right hl'
    obtain ⟨rfl, rfl⟩ :=
      RuleDecl.eq_of_mem_leftBetween hl (RuleDecl.mem_leftBetween_of_early hearly)
    exact hearly
  -- a free edge is left for all of them, so each takes one, but only the early edges other than `m`
  -- are to be had
  have hle : (d.anonymousBetween s t).length ≤ ((d.early s t).erase m).length := by
    refine length_le_of_related (R := fun k m => r.Pairs m k) List.nodup_findIdxs (fun k hk => ?_)
      fun _ _ _ hp hp' => h.right_eq_of_pairs hp hp'
    obtain ⟨m', hm', -, hp⟩ :=
      h.exists_pairs_of_not_keeps hl (fun hkeeps => hlate (hbetween hl hkeeps hl')) hk
    have hne : m' ≠ m := by
      rintro rfl
      exact hlone hk hp hcounter
    exact ⟨m', (List.mem_erase_of_ne hne).mpr (hbetween hm' ⟨k, hp⟩ (hlone hk hp)), hp⟩
  have hpos := List.length_pos_of_mem hm
  rw [List.length_erase_of_mem hm, RuleDecl.length_early_of_late hl hlate] at hle
  rw [RuleDecl.length_early_of_late hl hlate] at hpos
  omega

end NamesApart

end Lowered

/-! ### Other orders -/

section Order

variable {d : RuleDecl} {r : Rule} {es : List EdgeDecl} (hperm : es.Perm d.rhs.edges)

include hperm

theorem edgeIds_withRightEdges : (d.withRightEdges es).rhs.edgeIds.Perm d.rhs.edgeIds :=
  hperm.filterMap _

/-- A declaration stays acceptable when the edges of its right side are reordered. -/
theorem RuleDecl.Acceptable.withRightEdges (h : d.Acceptable) : (d.withRightEdges es).Acceptable :=
  h.of_sameEntries ⟨.refl _, .refl _, .refl _, .refl _, hperm, rfl⟩

/-- A reordered declaration lowers. -/
theorem exists_lower_withRightEdges (h : d.lower = .ok r) :
    ∃ r', (d.withRightEdges es).lower = .ok r' :=
  RuleDecl.exists_lower_iff.mpr ((RuleDecl.exists_lower_iff.mp ⟨r, h⟩).withRightEdges hperm)

theorem early_withRightEdges (s t : String) : (d.withRightEdges es).early s t = d.early s t := by
  have hlength : ((d.withRightEdges es).anonymousBetween s t).length =
      (d.anonymousBetween s t).length := by
    rw [RuleDecl.anonymousBetween, RuleDecl.anonymousBetween, List.length_findIdxs,
      List.length_findIdxs]
    exact hperm.countP_eq _
  rw [RuleDecl.early, RuleDecl.early, hlength]
  rfl

theorem hasCounterpart_withRightEdges_iff {l : Nat} :
    (d.withRightEdges es).HasCounterpart l ↔ d.HasCounterpart l :=
  exists_congr fun _ => and_congr_left fun _ => hperm.mem_iff

theorem forced_withRightEdges_iff {l : Nat} : (d.withRightEdges es).Forced l ↔ d.Forced l := by
  simp only [RuleDecl.Forced, early_withRightEdges hperm, hasCounterpart_withRightEdges_iff hperm]

theorem orderFree_withRightEdges_iff : (d.withRightEdges es).OrderFree ↔ d.OrderFree := by
  simp only [RuleDecl.OrderFree, early_withRightEdges hperm,
    hasCounterpart_withRightEdges_iff hperm]
  rfl

theorem RuleDecl.NamesApart.withRightEdges (h : d.NamesApart) : (d.withRightEdges es).NamesApart :=
  fun e he hid hmem => h e he hid ((edgeIds_withRightEdges hperm).mem_iff.mp hmem)

end Order

theorem Rule.keeps_iff {r : Rule} {l : Nat} : r.Keeps l ↔ l ∈ r.preservedEdges.map (·.left) := by
  rw [List.mem_map]
  constructor
  · rintro ⟨k, q, hq, -, hl⟩
    exact ⟨q, hq, hl⟩
  · rintro ⟨q, hq, hl⟩
    exact ⟨q.right, q, hq, rfl, hl⟩

/-- An edge is kept exactly if it is one of the left side and not deleted. -/
theorem Lowered.keeps_iff {d : RuleDecl} {r : Rule} (h : Lowered d r) {l : Nat} :
    r.Keeps l ↔ l < d.lhs.edges.length ∧ l ∉ r.deletedEdges := by
  rw [Rule.mem_deletedEdges_iff, h.lhs.size_edges, ← Rule.keeps_iff]
  constructor
  · intro hkeeps
    obtain ⟨q, hq, rfl⟩ := List.mem_map.mp (Rule.keeps_iff.mp hkeeps)
    exact ⟨h.lhs.size_edges ▸ h.left_lt_of_mem_preservedEdges hq, fun hdeleted => hdeleted.2 hkeeps⟩
  · rintro ⟨hlt, hkept⟩
    by_contra hkeeps
    exact hkept ⟨hlt, hkeeps⟩

/-- A left edge is deleted exactly if it is in no pair. -/
theorem Lowered.mem_deletedEdges_iff {d : RuleDecl} {r : Rule} (h : Lowered d r) {l : Nat} :
    l ∈ r.deletedEdges ↔ l < d.lhs.edges.length ∧ ∀ k, ¬ r.Pairs l k := by
  rw [Rule.mem_deletedEdges_iff, h.lhs.size_edges, ← Rule.keeps_iff, Rule.Keeps, not_exists]

/-- An edge of the right side is added exactly if it is in no pair. -/
theorem Lowered.mem_addedEdges_iff {d : RuleDecl} {r : Rule} (h : Lowered d r) {k : Nat} :
    k ∈ r.addedEdges.map (·.index) ↔ k < d.rhs.edges.length ∧ ∀ l, ¬ r.Pairs l k := by
  have hpairs : k ∈ r.preservedEdges.map (·.right) ↔ ∃ l, r.Pairs l k := by
    rw [List.mem_map]
    constructor
    · rintro ⟨q, hq, hk⟩
      exact ⟨q.left, q, hq, hk, rfl⟩
    · rintro ⟨l, q, hq, hk, -⟩
      exact ⟨q, hq, hk⟩
  have hperm := h.perm_rightEdges
  have hdisjoint := List.disjoint_of_nodup_append (hperm.nodup_iff.mpr List.nodup_range)
  rw [← not_exists, ← hpairs, ← List.mem_range, ← hperm.mem_iff, List.mem_append]
  constructor
  · exact fun hadded => ⟨Or.inr hadded, fun hpreserved => hdisjoint hpreserved hadded⟩
  · exact fun hk => hk.1.resolve_left hk.2

/-- Rules of a declaration and a reordered one have the same effect on edges exactly if they keep
the same ones. -/
theorem sameEdges_iff_keeps {d : RuleDecl} {r r' : Rule} {es : List EdgeDecl} (h : Lowered d r)
    (h' : Lowered (d.withRightEdges es) r') (hlength : es.length = d.rhs.edges.length) :
    r.SameEdges r' ↔ ∀ l, r'.Keeps l ↔ r.Keeps l := by
  constructor
  · intro hsame l
    rw [h.keeps_iff, h'.keeps_iff, hsame.deleted]
    rfl
  · intro hkeeps
    have hpreserved : r'.preservedEdges.length = r.preservedEdges.length := by
      have hperm : (r'.preservedEdges.map (·.left)).Perm (r.preservedEdges.map (·.left)) := by
        rw [List.perm_ext_iff_of_nodup h'.nodup_preservedEdges_left h.nodup_preservedEdges_left]
        exact fun l => by rw [← Rule.keeps_iff, ← Rule.keeps_iff, hkeeps]
      simpa using hperm.length_eq
    refine ⟨hpreserved, ?_, fun i => ?_⟩
    · have hright := h.length_rightEdges
      have hright' := h'.length_rightEdges
      have : (d.withRightEdges es).rhs.edges.length = d.rhs.edges.length := hlength
      omega
    · rw [Rule.mem_deletedEdges_iff, Rule.mem_deletedEdges_iff, h.lhs.size_edges, h'.lhs.size_edges,
        ← Rule.keeps_iff, ← Rule.keeps_iff, hkeeps]
      rfl

/-- **When the order of the edges does not matter.** A reordered declaration always lowers. If no
made-up name is an identifier on the right side, then the same edges are deleted and equally many
preserved and added in every order exactly if, between any two nodes, no early edge has a
counterpart or all other edges have one. -/
theorem sameEdges_iff_orderFree {d : RuleDecl} {r : Rule} (h : d.lower = .ok r) :
    (∀ es, es.Perm d.rhs.edges → ∃ r', (d.withRightEdges es).lower = .ok r') ∧
      (d.NamesApart →
        ((∀ es, es.Perm d.rhs.edges → ∀ r', (d.withRightEdges es).lower = .ok r' → r.SameEdges r') ↔
          d.OrderFree)) := by
  have hl := lowered_of_lower h
  refine ⟨fun es hperm => exists_lower_withRightEdges hperm h,
    fun hname => ⟨fun hsame => ?_, fun hfree => ?_⟩⟩
  · have hkeeps {es : List EdgeDecl} (hperm : es.Perm d.rhs.edges) :
        ∃ r', Lowered (d.withRightEdges es) r' ∧ ∀ l, r'.Keeps l ↔ r.Keeps l := by
      obtain ⟨r', h'⟩ := exists_lower_withRightEdges hperm h
      have hl' := lowered_of_lower h'
      exact ⟨r', hl', (sameEdges_iff_keeps hl hl' hperm.length_eq).mp (hsame es hperm r' h')⟩
    obtain ⟨first, hfirst, horder⟩ :=
      exists_perm_pairwise (fun e : EdgeDecl => e.id = none) d.rhs.edges
    obtain ⟨last, hlast, horder'⟩ :=
      exists_perm_pairwise (fun e : EdgeDecl => e.id ≠ none) d.rhs.edges
    obtain ⟨r₁, hl₁, hkeeps₁⟩ := hkeeps hfirst
    obtain ⟨r₂, hl₂, hkeeps₂⟩ := hkeeps hlast
    -- what is kept with the edges without an identifier last is what is kept with them first
    rw [← orderFree_withRightEdges_iff hlast]
    refine hl₂.orderFree_of_anonymousLast (hname.withRightEdges hlast) horder' fun l hl => ?_
    rw [forced_withRightEdges_iff hlast, ← forced_withRightEdges_iff hfirst]
    rw [hkeeps₂, ← hkeeps₁] at hl
    exact hl₁.forced_of_anonymousFirst (hname.withRightEdges hfirst) horder hl
  · intro es hperm r' h'
    have hl' := lowered_of_lower h'
    have hname' := hname.withRightEdges hperm
    have hfree' := (orderFree_withRightEdges_iff hperm).mpr hfree
    refine (sameEdges_iff_keeps hl hl' hperm.length_eq).mpr fun l => ?_
    constructor
    · intro hkeeps
      have hforced := hl'.forced_of_orderFree hname' hfree' hkeeps
      exact hl.keeps_of_forced hname ((forced_withRightEdges_iff hperm).mp hforced)
    · intro hkeeps
      have hforced := hl.forced_of_orderFree hname hfree hkeeps
      exact hl'.keeps_of_forced hname' ((forced_withRightEdges_iff hperm).mpr hforced)

/-! ### Parallel edges -/

/-- A rule with two edges between the same nodes, the first of them without an identifier, that
keeps both. -/
def parallel : RuleDecl where
  name := "parallel"
  lhs := {
    nodes := [{ id := "a" }, { id := "b" }]
    edges := [{ source := "a", target := "b" }, { id := "e", source := "a", target := "b" }] }
  rhs := {
    nodes := [{ id := "a" }, { id := "b" }]
    edges := [{ source := "a", target := "b" }, { id := "e", source := "a", target := "b" }] }

/-- What `parallel` lowers to. -/
def parallelRule : Rule where
  name := "parallel"
  vars := Variables.empty
  lhs := ⟨#[{}, {}], #[⟨0, 1, {}⟩, ⟨0, 1, {}⟩]⟩
  rhs := ⟨#[{}, {}], #[⟨0, 1, {}⟩, ⟨0, 1, {}⟩]⟩
  delta := {
    preservedNodes := [⟨0, 0, false⟩, ⟨1, 1, false⟩]
    preservedEdges := [⟨0, 0, false⟩, ⟨1, 1, false⟩] }
  condition := none

theorem lower_parallel : parallel.lower = .ok parallelRule := rfl

theorem namesApart_parallel : parallel.NamesApart := by
  rw [RuleDecl.NamesApart]
  decide +kernel

/-- The early edge is the one without an identifier. -/
theorem orderFree_parallel : parallel.OrderFree := by
  intro s t
  left
  rintro l hl ⟨_, -, id, -, e', he', hid', -⟩
  have hends : ∀ e ∈ parallel.lhs.edges, e.source = "a" ∧ e.target = "b" := by decide
  obtain ⟨e, he, rfl, rfl⟩ := RuleDecl.mem_leftBetween_iff.mp (RuleDecl.mem_leftBetween_of_early hl)
  obtain ⟨hs, ht⟩ := hends e (List.mem_of_getElem? he)
  rw [hs, ht] at hl
  obtain rfl : l = 0 := List.mem_singleton.mp hl
  obtain rfl := Option.some.inj he'
  cases hid'

/-- Both orders of the edges keep both. -/
theorem sameEdges_parallel :
    parallel.lower = .ok parallelRule ∧ parallel.NamesApart ∧
      ∀ es, es.Perm parallel.rhs.edges →
      ∀ r', (parallel.withRightEdges es).lower = .ok r' → parallelRule.SameEdges r' :=
  ⟨lower_parallel, namesApart_parallel,
    ((sameEdges_iff_orderFree lower_parallel).2 namesApart_parallel).mpr orderFree_parallel⟩

/-- The rule with the edge without an identifier listed last on both sides. -/
def overtaken : RuleDecl :=
  { parallel with
    lhs := { parallel.lhs with edges := parallel.lhs.edges.reverse }
    rhs := { parallel.rhs with edges := parallel.rhs.edges.reverse } }

/-- What `overtaken` lowers to when the edges of the right side are listed the other way around. -/
def overtakenRule : Rule :=
  { parallelRule with
    delta := {
      preservedNodes := parallelRule.preservedNodes
      preservedEdges := [⟨0, 0, false⟩]
      addedEdges := [⟨1, ⟨.left, 0⟩, ⟨.left, 1⟩⟩] } }

theorem lower_overtaken : overtaken.lower = .ok parallelRule := rfl

/-- An edge without an identifier that is listed first takes the counterpart of the other one. -/
theorem not_sameEdges_overtaken : overtaken.lower = .ok parallelRule ∧
    overtaken.rhs.edges.reverse.Perm overtaken.rhs.edges ∧
      (overtaken.withRightEdges overtaken.rhs.edges.reverse).lower = .ok overtakenRule ∧
      ¬ parallelRule.SameEdges overtakenRule := by
  refine ⟨lower_overtaken, List.reverse_perm _, rfl, fun h => ?_⟩
  have hlength : 1 = 2 := h.preserved
  cases hlength

end GraphTransform
