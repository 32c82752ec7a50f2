import GraphTransform.Proofs.Alike
import GraphTransform.Proofs.Reordering
import Mathlib.Data.Fintype.EquivFin

/-!
# Declarations whose edges all carry identifiers

When every edge carries an identifier, no name is made up, and the order of the edges plays no part
in pairing: an edge of the right side is preserved exactly with the left edge that has its
identifier and its ends (`pairs_iff_sameEdge`).

Any way of pairing edges can be expressed like that. If the edges of a declaration are given
identifiers so that edges of both sides share one exactly if they are a pair of its rule
(`RuleDecl.NamesPairs`), then the rule stays the same. There always are such identifiers
(`lower_of_namesPairs`).
-/

namespace GraphTransform

open Delta (takenBefore)

/-! ### Statements -/

/-- Every edge of both sides carries an identifier. -/
structure RuleDecl.Identified (d : RuleDecl) : Prop where
  /-- Every left edge. -/
  left : ∀ e ∈ d.lhs.edges, e.id ≠ none
  /-- Every edge of the right side. -/
  right : ∀ e ∈ d.rhs.edges, e.id ≠ none

/-- The left edge at `l` and the edge at `k` of the right side have the same identifier and the same
ends. -/
def RuleDecl.SameEdge (d : RuleDecl) (l k : Nat) : Prop :=
  ∃ e e', d.lhs.edges[l]? = some e ∧ d.rhs.edges[k]? = some e' ∧ e.id = e'.id ∧ e'.SameEnds e

/-- `d'` is the declaration `d` with identifiers for all edges that tell which edges the rule `r`
pairs: edges of both sides share one exactly if they are a pair, and no edges of one side do. -/
structure RuleDecl.NamesPairs (d : RuleDecl) (r : Rule) (d' : RuleDecl) : Prop where
  /-- Nothing but identifiers of edges is different. -/
  alike : d.Alike d'
  /-- All edges have one. -/
  identified : d'.Identified
  /-- Those of the left edges are distinct. -/
  leftIds : d'.lhs.edgeIds.Nodup
  /-- Those of the edges of the right side are distinct. -/
  rightIds : d'.rhs.edgeIds.Nodup
  /-- Edges of both sides share one exactly if they are a pair. -/
  shared_iff : ∀ (l k : Nat) e e', d'.lhs.edges[l]? = some e → d'.rhs.edges[k]? = some e' →
    (e.id = e'.id ↔ r.Pairs l k)

/-! ### Pairs -/

theorem RuleDecl.Identified.exists_right_id {d : RuleDecl} (h : d.Identified) {k : Nat}
    {e : EdgeDecl} (he : d.rhs.edges[k]? = some e) : ∃ id, e.id = some id :=
  Option.ne_none_iff_exists'.mp (h.right e (List.mem_of_getElem? he))

/-- Where every left edge carries an identifier, the partner of an edge is its counterpart, if that
is free. -/
theorem isPartner_iff_of_identified {es : List EdgeDecl} {taken : Set Nat} {e : EdgeDecl}
    {id : String} (hid : e.id = some id) (hes : ∀ e' ∈ es, e'.id ≠ none)
    (hnodup : (es.filterMap (·.id)).Nodup) {l : Nat} :
    IsPartner es taken e l ↔ l ∉ taken ∧ IsCounterpart es e id l :=
  isPartner_iff_isCounterpart hid hnodup fun e' he' hnone => absurd hnone (hes e' he')

/-- **Edges are a pair exactly if they have the same identifier and the same ends.** -/
theorem Lowered.pairs_iff_sameEdge {d : RuleDecl} {r : Rule} (h : Lowered d r) (hid : d.Identified)
    {l k : Nat} : r.Pairs l k ↔ d.SameEdge l k := by
  have hpartner {l k : Nat} {e : EdgeDecl} {id : String} (he : d.rhs.edges[k]? = some e)
      (hid' : e.id = some id) :
      r.Pairs l k ↔ l ∉ takenBefore r.preservedEdges k ∧ IsCounterpart d.lhs.edges e id l :=
    (h.exists_preservedEdge_iff he).trans (isPartner_iff_of_identified hid' hid.left h.leftEdgeIds)
  constructor
  · intro hp
    obtain ⟨e', he', -⟩ := h.exists_edge_of_pairs hp
    obtain ⟨id, hid'⟩ := hid.exists_right_id he'
    obtain ⟨-, e, he, heq, hsame⟩ := (hpartner he' hid').mp hp
    exact ⟨e, e', he, he', heq.trans hid'.symm, hsame⟩
  · rintro ⟨e, e', he, he', heq, hsame⟩
    obtain ⟨id, hid'⟩ := hid.exists_right_id he'
    refine (hpartner he' hid').mpr ⟨fun htaken => ?_, e, he, heq.trans hid', hsame⟩
    -- an edge before it that had taken the left edge would carry the same identifier
    obtain ⟨k', hlt, hp⟩ := mem_takenBefore_iff.mp htaken
    obtain ⟨e₂, he₂, -⟩ := h.exists_edge_of_pairs hp
    obtain ⟨id₂, hid₂⟩ := hid.exists_right_id he₂
    obtain ⟨-, e₃, he₃, heq₃, -⟩ := (hpartner he₂ hid₂).mp hp
    obtain rfl := Option.some.inj (he.symm.trans he₃)
    rw [heq, hid'] at heq₃
    exact hlt.ne (eq_of_id h.rightEdgeIds he₂ he' (hid₂.trans heq₃.symm) hid')

/-- Identifiers that tell the pairs of a rule lead every edge to the partner that it has. -/
theorem RuleDecl.NamesPairs.isPartner_iff {d d' : RuleDecl} {r : Rule} (hd : d.NamesPairs r d')
    (h : Lowered d r) {k l : Nat} {e' : EdgeDecl} (he' : d'.rhs.edges[k]? = some e') :
    IsPartner d'.lhs.edges (takenBefore r.preservedEdges k) e' l ↔ r.Pairs l k := by
  obtain ⟨id, hid⟩ := hd.identified.exists_right_id he'
  rw [isPartner_iff_of_identified hid hd.identified.left hd.leftIds]
  constructor
  · rintro ⟨-, e, he, heq, -⟩
    exact (hd.shared_iff l k e e' he he').mp (heq.trans hid.symm)
  · intro hp
    obtain ⟨e₀', he₀', hpartner⟩ := h.exists_edge_of_pairs hp
    obtain ⟨e₀, he₀, hsame⟩ := hpartner.sameEnds
    obtain ⟨e, he, halike⟩ := hd.alike.lhs.exists_edge he₀
    obtain ⟨e'', he'', halike'⟩ := hd.alike.rhs.exists_edge he₀'
    obtain rfl := Option.some.inj (he'.symm.trans he'')
    refine ⟨hpartner.first.free, e, he, ((hd.shared_iff l k e e' he he').mpr hp).trans hid, ?_⟩
    exact ⟨halike.source.trans (hsame.1.trans halike'.source.symm),
      halike.target.trans (hsame.2.trans halike'.target.symm)⟩

/-! ### There are such identifiers -/

/-- The side with an identifier for every edge, given by its index. -/
def GraphDecl.withEdgeIds (g : GraphDecl) (ids : Nat → String) : GraphDecl :=
  { g with edges := g.edges.mapIdx fun i e => { e with id := some (ids i) } }

/-- The declaration with an identifier for every edge of both sides. -/
def RuleDecl.withEdgeIds (d : RuleDecl) (left right : Nat → String) : RuleDecl :=
  { d with lhs := d.lhs.withEdgeIds left, rhs := d.rhs.withEdgeIds right }

/-- A number for the edge at `k` of the right side: the left index of its partner, or one that no
left edge has. -/
def Rule.edgeNumber (r : Rule) (k : Nat) : Nat :=
  match r.preservedEdges.find? (·.right = k) with
  | some q => q.left
  | none => r.lhs.edges.size + k

namespace GraphDecl

variable (g : GraphDecl) (ids : Nat → String)

theorem withEdgeIds_getElem? (i : Nat) :
    (g.withEdgeIds ids).edges[i]? = g.edges[i]?.map fun e => { e with id := some (ids i) } :=
  List.getElem?_mapIdx

theorem alike_withEdgeIds : g.Alike (g.withEdgeIds ids) where
  nodes := rfl
  edges := by
    refine List.forall₂_iff_get.mpr ⟨List.length_mapIdx.symm, fun i hi hi' => ?_⟩
    simp only [withEdgeIds, List.get_eq_getElem, List.getElem_mapIdx]
    exact ⟨rfl, rfl, rfl⟩

theorem edgeIds_withEdgeIds :
    (g.withEdgeIds ids).edgeIds = (List.range g.edges.length).map ids := by
  have hids : (g.withEdgeIds ids).edgeIds = g.edges.zipIdx.map fun c => ids c.2 := by
    rw [edgeIds, withEdgeIds, List.mapIdx_eq_zipIdx_map, List.filterMap_map]
    exact congrFun List.filterMap_eq_map _
  have hmap : (g.edges.zipIdx.map fun c => ids c.2) = (g.edges.zipIdx.map (·.2)).map ids :=
    List.map_map.symm
  rw [hids, hmap, List.zipIdx_map_snd, List.range_eq_range']

variable {g ids}

theorem nodup_edgeIds_withEdgeIds (h : Function.Injective ids) :
    (g.withEdgeIds ids).edgeIds.Nodup := by
  rw [edgeIds_withEdgeIds]
  exact List.nodup_range.map h

theorem id_ne_none_of_withEdgeIds {e : EdgeDecl} (he : e ∈ (g.withEdgeIds ids).edges) :
    e.id ≠ none := by
  obtain ⟨i, hi⟩ := List.mem_iff_getElem?.mp he
  rw [withEdgeIds_getElem?, Option.map_eq_some_iff] at hi
  obtain ⟨_, -, rfl⟩ := hi
  exact Option.some_ne_none _

end GraphDecl

namespace Lowered

variable {d : RuleDecl} {r : Rule} (h : Lowered d r) {l k k' : Nat}

include h

theorem edgeNumber_of_pairs (hp : r.Pairs l k) : r.edgeNumber k = l := by
  rw [Rule.edgeNumber]
  cases hq : r.preservedEdges.find? (·.right = k) with
  | none =>
    obtain ⟨q, hmem, hk, -⟩ := hp
    exact absurd hk (by simpa using List.find?_eq_none.mp hq q hmem)
  | some q =>
    have hk : q.right = k := by simpa using List.find?_some hq
    exact h.left_eq_of_pairs ⟨q, List.mem_of_find?_eq_some hq, hk, rfl⟩ hp

theorem edgeNumber_of_not_pairs (hp : ∀ l, ¬ r.Pairs l k) :
    r.edgeNumber k = d.lhs.edges.length + k := by
  have hnone : r.preservedEdges.find? (·.right = k) = none := by
    rw [List.find?_eq_none]
    exact fun q hq => by simpa using fun hk => hp q.left ⟨q, hq, hk, rfl⟩
  rw [Rule.edgeNumber, hnone, h.lhs.size_edges]

/-- An edge of the right side has the number of a left edge exactly if they are a pair. -/
theorem edgeNumber_eq_iff (hl : l < d.lhs.edges.length) : r.edgeNumber k = l ↔ r.Pairs l k := by
  refine ⟨fun heq => ?_, h.edgeNumber_of_pairs⟩
  by_cases hp : ∃ l', r.Pairs l' k
  · obtain ⟨l', hp⟩ := hp
    obtain rfl := (h.edgeNumber_of_pairs hp).symm.trans heq
    exact hp
  · rw [h.edgeNumber_of_not_pairs (not_exists.mp hp)] at heq
    omega

theorem lt_of_pairs (hp : r.Pairs l k) : l < d.lhs.edges.length := by
  obtain ⟨q, hq, -, rfl⟩ := hp
  exact h.lhs.size_edges ▸ h.left_lt_of_mem_preservedEdges hq

/-- No two edges of the right side have the same number. -/
theorem edgeNumber_injective : Function.Injective r.edgeNumber := by
  have hpaired {k k' : Nat} (heq : r.edgeNumber k = r.edgeNumber k') {l : Nat} (hp : r.Pairs l k) :
      k = k' := by
    rw [h.edgeNumber_of_pairs hp] at heq
    exact h.right_eq_of_pairs hp ((h.edgeNumber_eq_iff (h.lt_of_pairs hp)).mp heq.symm)
  intro k k' heq
  by_cases hp : ∃ l, r.Pairs l k
  · exact hpaired heq hp.choose_spec
  by_cases hp' : ∃ l, r.Pairs l k'
  · exact (hpaired heq.symm hp'.choose_spec).symm
  rw [h.edgeNumber_of_not_pairs (not_exists.mp hp),
    h.edgeNumber_of_not_pairs (not_exists.mp hp')] at heq
  omega

/-- Names for these numbers tell the pairs of the rule. -/
theorem namesPairs_withEdgeIds {name : Nat → String} (hname : Function.Injective name) :
    d.NamesPairs r (d.withEdgeIds name fun k => name (r.edgeNumber k)) where
  alike := ⟨rfl, rfl, d.lhs.alike_withEdgeIds _, d.rhs.alike_withEdgeIds _, rfl⟩
  identified :=
    ⟨fun _ => GraphDecl.id_ne_none_of_withEdgeIds, fun _ => GraphDecl.id_ne_none_of_withEdgeIds⟩
  leftIds := GraphDecl.nodup_edgeIds_withEdgeIds hname
  rightIds := GraphDecl.nodup_edgeIds_withEdgeIds (hname.comp h.edgeNumber_injective)
  shared_iff := by
    intro l k e e' he he'
    simp only [RuleDecl.withEdgeIds, GraphDecl.withEdgeIds_getElem?,
      Option.map_eq_some_iff] at he he'
    obtain ⟨e₀, he₀, rfl⟩ := he
    obtain ⟨e₀', -, rfl⟩ := he'
    rw [Option.some.injEq, hname.eq_iff, eq_comm]
    exact h.edgeNumber_eq_iff (List.getElem?_eq_some_iff.mp he₀).1

end Lowered

/-- **The pairs of a rule can be told by identifiers alone.** There are identifiers for all edges of
a declaration that tell the pairs of its rule, and with any such identifiers it lowers to the same
rule. -/
theorem lower_of_namesPairs {d : RuleDecl} {r : Rule} (h : d.lower = .ok r) :
    (∃ d', d.NamesPairs r d') ∧ ∀ d', d.NamesPairs r d' → d'.lower = .ok r := by
  have hl := lowered_of_lower h
  refine ⟨⟨_, hl.namesPairs_withEdgeIds (Infinite.natEmbedding String).injective⟩, fun d' hd => ?_⟩
  refine lower_of_alike h hd.alike hd.leftIds hd.rightIds fun k e e' he he' l => ?_
  exact (hl.exists_preservedEdge_iff he).symm.trans (hd.isPartner_iff hl he').symm

/-! ### An instance -/

/-- The rule in which an edge without an identifier takes the counterpart of another edge, with
other identifiers: the edges that are a pair share one, and the two edges that had shared one do
not. -/
def overtakenNamed : RuleDecl where
  name := "parallel"
  lhs := {
    nodes := [{ id := "a" }, { id := "b" }]
    edges :=
      [{ id := "f", source := "a", target := "b" }, { id := "g", source := "a", target := "b" }] }
  rhs := {
    nodes := [{ id := "a" }, { id := "b" }]
    edges :=
      [{ id := "f", source := "a", target := "b" }, { id := "e", source := "a", target := "b" }] }

theorem namesPairs_overtakenNamed :
    (overtaken.withRightEdges overtaken.rhs.edges.reverse).NamesPairs overtakenRule
      overtakenNamed where
  alike := by
    refine ⟨rfl, rfl, ⟨rfl, ?_⟩, ⟨rfl, ?_⟩, rfl⟩
    · exact .cons ⟨rfl, rfl, rfl⟩ (.cons ⟨rfl, rfl, rfl⟩ .nil)
    · exact .cons ⟨rfl, rfl, rfl⟩ (.cons ⟨rfl, rfl, rfl⟩ .nil)
  identified := ⟨by decide, by decide⟩
  leftIds := by decide
  rightIds := by decide
  shared_iff := by
    have hpairs (l k : Nat) : overtakenRule.Pairs l k ↔ 0 = k ∧ 0 = l := by
      simp [Rule.Pairs, Rule.preservedEdges, overtakenRule]
    rintro (_ | _ | l) (_ | _ | k) e e' ⟨⟩ ⟨⟩ <;> simp [hpairs]

/-- The pair stays a pair, and the other edges are deleted and added. -/
theorem lower_overtakenNamed :
    (overtaken.withRightEdges overtaken.rhs.edges.reverse).lower = .ok overtakenRule ∧
      (overtaken.withRightEdges overtaken.rhs.edges.reverse).NamesPairs overtakenRule
        overtakenNamed ∧ overtakenNamed.lower = .ok overtakenRule := by
  have h : (overtaken.withRightEdges overtaken.rhs.edges.reverse).lower = .ok overtakenRule := rfl
  exact ⟨h, namesPairs_overtakenNamed, (lower_of_namesPairs h).2 _ namesPairs_overtakenNamed⟩

end GraphTransform
