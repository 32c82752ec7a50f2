import GraphTransform.Proofs.Lowered

/-!
# Edges with an identifier

An edge of the right side with an identifier should be preserved exactly if the left side has an
edge with that identifier between the same nodes, whatever other edges there are
(`Rule.KeepsIdentity`). It is not so: left edges without an identifier are found under names made
up from their ends, which may be identifiers of other edges, and edges without an identifier take
the first edge between their ends, which may have one. `keepsIdentity_iff_of_lower` says exactly
when the edge keeps its identity: when neither happens to it (`Undisturbed`). For that it suffices
that no made-up name on the left is its identifier and that no edge without an identifier comes
before it between the same nodes (`keepsIdentity_of_unambiguous`).
-/

namespace GraphTransform

open Delta (takenBefore)

/-- The left edge at `l` has the identifier `id` and the ends of `e`. -/
def IsCounterpart (es : List EdgeDecl) (e : EdgeDecl) (id : String) (l : Nat) : Prop :=
  ∃ e', es[l]? = some e' ∧ e'.id = some id ∧ e.SameEnds e'

/-- The edge `e` with the identifier `id` at `k` of the right side is preserved exactly if it has a
counterpart, and with that one. -/
structure Rule.KeepsIdentity (r : Rule) (d : RuleDecl) (k : Nat) (e : EdgeDecl) (id : String) :
    Prop where
  /-- It is preserved exactly if it has a counterpart. -/
  preserved_iff : (∃ q ∈ r.preservedEdges, q.right = k) ↔ ∃ l, IsCounterpart d.lhs.edges e id l
  /-- It is preserved with its counterpart. -/
  partner : ∀ q ∈ r.preservedEdges, q.right = k → IsCounterpart d.lhs.edges e id q.left

/-- No other edge gets in the way of the edge `e` with the identifier `id`, when the left edges at
`taken` are those that edges of the right side before it have taken. -/
structure Undisturbed (es : List EdgeDecl) (taken : Set Nat) (e : EdgeDecl) (id : String) :
    Prop where
  /-- Its counterpart is not taken. -/
  free : ∀ l, IsCounterpart es e id l → l ∉ taken
  /-- If the name is found first at an edge for which it is made up, then this one has other ends,
  and there is no counterpart to be found. -/
  named : ∀ l e', IsFirst es taken (·.name = id) l → es[l]? = some e' → e'.id = none →
    ¬ e.SameEnds e' ∧ ∀ l', ¬ IsCounterpart es e id l'

/-! ### Names and identifiers -/

theorem EdgeDecl.name_eq_of_id {e : EdgeDecl} {id : String} (h : e.id = some id) : e.name = id := by
  rw [name, h]

theorem EdgeDecl.seeks_of_id {e : EdgeDecl} {id : String} (h : e.id = some id) :
    e.Seeks = fun e' => e'.name = id := by
  funext e'
  rw [Seeks, h]

/-- An edge with a name has it as its identifier, or has none. -/
theorem EdgeDecl.id_eq_of_name {e : EdgeDecl} {id : String} (h : e.name = id) :
    e.id = some id ∨ e.id = none := by
  rw [name] at h
  cases hid : e.id with
  | none => exact Or.inr rfl
  | some id' =>
    rw [hid] at h
    exact Or.inl (congrArg some h)

/-- An edge with an identifier is paired with the first free edge of that name, if that has the same
ends. -/
theorem isPartner_iff_of_id {es : List EdgeDecl} {taken : Set Nat} {e : EdgeDecl} {id : String}
    (hid : e.id = some id) {l : Nat} :
    IsPartner es taken e l ↔
      IsFirst es taken (·.name = id) l ∧ ∃ e', es[l]? = some e' ∧ e.SameEnds e' := by
  rw [← EdgeDecl.seeks_of_id hid]
  exact ⟨fun h => ⟨h.first, h.sameEnds⟩, fun h => ⟨h.1, h.2⟩⟩

/-- An edge without an identifier is paired with the first free edge between its ends. -/
theorem isPartner_iff_of_none {es : List EdgeDecl} {taken : Set Nat} {e : EdgeDecl}
    (hid : e.id = none) {l : Nat} : IsPartner es taken e l ↔ IsFirst es taken e.SameEnds l := by
  have hseeks : e.Seeks = e.SameEnds := by
    funext e'
    rw [EdgeDecl.Seeks, hid, EdgeDecl.SameEnds]
  constructor
  · exact fun h => hseeks ▸ h.first
  · exact fun h => ⟨hseeks ▸ h, h.holds⟩

/-- When the identifiers that edges carry are distinct, an identifier tells the position of the
edge. -/
theorem eq_of_id {es : List EdgeDecl} (h : (es.filterMap (·.id)).Nodup) {l l' : Nat}
    {e e' : EdgeDecl} (he : es[l]? = some e) (he' : es[l']? = some e') {id : String}
    (hid : e.id = some id) (hid' : e'.id = some id) : l = l' := by
  rw [List.Nodup, List.pairwise_filterMap, List.pairwise_iff_getElem] at h
  obtain ⟨hl, rfl⟩ := List.getElem?_eq_some_iff.mp he
  obtain ⟨hl', rfl⟩ := List.getElem?_eq_some_iff.mp he'
  rcases lt_trichotomy l l' with hlt | heq | hlt
  · exact absurd rfl (h l l' hl hl' hlt id hid id hid')
  · exact heq
  · exact absurd rfl (h l' l hl' hl hlt id hid' id hid)

theorem IsCounterpart.unique {es : List EdgeDecl} (h : (es.filterMap (·.id)).Nodup) {e : EdgeDecl}
    {id : String} {l l' : Nat} (hl : IsCounterpart es e id l) (hl' : IsCounterpart es e id l') :
    l = l' := by
  obtain ⟨e₁, he₁, hid₁, -⟩ := hl
  obtain ⟨e₂, he₂, hid₂, -⟩ := hl'
  exact eq_of_id h he₁ he₂ hid₁ hid₂

/-! ### When the edge keeps its identity -/

section Undisturbed

variable {es : List EdgeDecl} {taken : Set Nat} {e : EdgeDecl} {id : String} (hid : e.id = some id)
  (h : Undisturbed es taken e id)

include hid h

theorem Undisturbed.counterpart_of_partner {l : Nat} (hl : IsPartner es taken e l) :
    IsCounterpart es e id l := by
  obtain ⟨hfirst, e', he', hsame⟩ := (isPartner_iff_of_id hid).mp hl
  obtain ⟨e'', he'', hname⟩ := hfirst.holds
  obtain rfl := Option.some.inj (he'.symm.trans he'')
  rcases EdgeDecl.id_eq_of_name hname with hid' | hnone
  · exact ⟨e', he', hid', hsame⟩
  · exact absurd hsame (h.named l e' hfirst he' hnone).1

theorem Undisturbed.partner_of_counterpart (hnodup : (es.filterMap (·.id)).Nodup) {l : Nat}
    (hl : IsCounterpart es e id l) : IsPartner es taken e l := by
  have hfree := h.free l hl
  obtain ⟨e', he', hid', hsame⟩ := hl
  obtain ⟨l', hfirst⟩ := exists_isFirst (p := (·.name = id)) hfree he' (EdgeDecl.name_eq_of_id hid')
  obtain ⟨e'', he'', hname⟩ := hfirst.holds
  rcases EdgeDecl.id_eq_of_name hname with hid'' | hnone
  · obtain rfl := eq_of_id hnodup he' he'' hid' hid''
    exact (isPartner_iff_of_id hid).mpr ⟨hfirst, e', he', hsame⟩
  · exact absurd ⟨e', he', hid', hsame⟩ ((h.named l' e'' hfirst he'' hnone).2 l)

end Undisturbed

namespace Lowered

variable {d : RuleDecl} {r : Rule} (h : Lowered d r) {k : Nat} {e : EdgeDecl}
  (he : d.rhs.edges[k]? = some e)

include h he

/-- An edge of the right side is preserved with a left edge exactly if that is its partner. -/
theorem exists_preservedEdge_iff {l : Nat} : (∃ q ∈ r.preservedEdges, q.right = k ∧ q.left = l) ↔
    IsPartner d.lhs.edges (takenBefore r.preservedEdges k) e l := by
  constructor
  · rintro ⟨q, hq, rfl, rfl⟩
    obtain ⟨⟨e', he', hp⟩, -⟩ := h.mem_preservedEdges_iff.mp hq
    obtain rfl := Option.some.inj (he.symm.trans he')
    exact hp
  · intro hp
    let q : Preserved := ⟨l, k, decide (r.lhs.edgeLabel? l ≠ r.rhs.edgeLabel? k)⟩
    exact ⟨q, h.mem_preservedEdges_iff.mpr ⟨⟨e, he, hp⟩, rfl⟩, rfl, rfl⟩

variable {id : String} (hid : e.id = some id)

include hid

theorem keepsIdentity_of_undisturbed
    (hu : Undisturbed d.lhs.edges (takenBefore r.preservedEdges k) e id) :
    r.KeepsIdentity d k e id := by
  have hpartner (q : Preserved) (hq : q ∈ r.preservedEdges) (hk : q.right = k) :
      IsCounterpart d.lhs.edges e id q.left :=
    hu.counterpart_of_partner hid ((h.exists_preservedEdge_iff he).mp ⟨q, hq, hk, rfl⟩)
  refine ⟨⟨?_, ?_⟩, hpartner⟩
  · rintro ⟨q, hq, hk⟩
    exact ⟨q.left, hpartner q hq hk⟩
  · rintro ⟨l, hl⟩
    obtain ⟨q, hq, hk, -⟩ :=
      (h.exists_preservedEdge_iff he).mpr (hu.partner_of_counterpart hid h.leftEdgeIds hl)
    exact ⟨q, hq, hk⟩

theorem undisturbed_of_keepsIdentity (hkeeps : r.KeepsIdentity d k e id) :
    Undisturbed d.lhs.edges (takenBefore r.preservedEdges k) e id := by
  have hpartner {l : Nat} (hl : IsCounterpart d.lhs.edges e id l) :
      IsPartner d.lhs.edges (takenBefore r.preservedEdges k) e l := by
    obtain ⟨q, hq, hk⟩ := hkeeps.preserved_iff.mpr ⟨l, hl⟩
    obtain rfl := IsCounterpart.unique h.leftEdgeIds (hkeeps.partner q hq hk) hl
    exact (h.exists_preservedEdge_iff he).mp ⟨q, hq, hk, rfl⟩
  refine ⟨fun l hl => (hpartner hl).first.free,
    fun l e' hfirst he' hnone => ⟨fun hsame => ?_, fun l' hl' => ?_⟩⟩
  · -- the edge would be preserved with one that has no identifier
    obtain ⟨q, hq, hk, rfl⟩ :=
      (h.exists_preservedEdge_iff he).mpr ((isPartner_iff_of_id hid).mpr ⟨hfirst, e', he', hsame⟩)
    obtain ⟨e'', he'', hid'', -⟩ := hkeeps.partner q hq hk
    obtain rfl := Option.some.inj (he'.symm.trans he'')
    rw [hnone] at hid''
    cases hid''
  · -- the name would be found first at the counterpart, which has an identifier
    obtain ⟨hfirst', -⟩ := (isPartner_iff_of_id hid).mp (hpartner hl')
    obtain rfl := hfirst.unique hfirst'
    obtain ⟨e'', he'', hid'', -⟩ := hl'
    obtain rfl := Option.some.inj (he'.symm.trans he'')
    rw [hnone] at hid''
    cases hid''

/-- If no name made up on the left is the identifier, and no edge without an identifier comes before
the edge between the same nodes, then nothing gets in its way. -/
theorem undisturbed_of_unambiguous (hleft : ∀ e' ∈ d.lhs.edges, e'.id = none → e'.name ≠ id)
    (hright : ∀ k' < k, ∀ e', d.rhs.edges[k']? = some e' → e'.id = none → ¬ e.SameEnds e') :
    Undisturbed d.lhs.edges (takenBefore r.preservedEdges k) e id := by
  refine ⟨?_, fun l e' hfirst he' hnone => ?_⟩
  · rintro l ⟨e', he', hid', hsame⟩ ⟨q, hq, rfl, hlt⟩
    obtain ⟨⟨e'', he'', hp⟩, -⟩ := h.mem_preservedEdges_iff.mp hq
    obtain ⟨_, heq, hs, hsame'⟩ := hp.exists_edge
    obtain rfl := Option.some.inj (he'.symm.trans heq)
    cases hid'' : e''.id with
    | none =>
      exact hright q.right hlt e'' he'' hid''
        ⟨hsame'.1.symm.trans hsame.1, hsame'.2.symm.trans hsame.2⟩
    | some id' =>
      rw [EdgeDecl.seeks_of_id hid'', EdgeDecl.name_eq_of_id hid'] at hs
      have := eq_of_id h.rightEdgeIds he'' he (hid''.trans (congrArg some hs.symm)) hid
      omega
  · obtain ⟨e'', he'', hname⟩ := hfirst.holds
    obtain rfl := Option.some.inj (he'.symm.trans he'')
    exact absurd hname (hleft e' (List.mem_of_getElem? he') hnone)

end Lowered

/-- **When an edge with an identifier keeps it**: it is preserved exactly with the left edge of that
identifier between the same nodes just if no other edge gets in its way. -/
theorem keepsIdentity_iff_of_lower {d : RuleDecl} {r : Rule} (h : d.lower = .ok r) {k : Nat}
    {e : EdgeDecl} {id : String} (he : d.rhs.edges[k]? = some e) (hid : e.id = some id) :
    r.KeepsIdentity d k e id ↔ Undisturbed d.lhs.edges (takenBefore r.preservedEdges k) e id := by
  have hl := lowered_of_lower h
  exact ⟨hl.undisturbed_of_keepsIdentity he hid, hl.keepsIdentity_of_undisturbed he hid⟩

/-- The edge that is moved is an instance. -/
theorem keepsIdentity_iff_moveEdge :
    moveEdge.lower = .ok moveEdgeRule ∧
      moveEdge.rhs.edges[1]? = some { id := "e", source := "a", target := "d" } ∧
      (moveEdgeRule.KeepsIdentity moveEdge 1 { id := "e", source := "a", target := "d" } "e" ↔
        Undisturbed moveEdge.lhs.edges (takenBefore moveEdgeRule.preservedEdges 1)
          { id := "e", source := "a", target := "d" } "e") :=
  ⟨lower_moveEdge, rfl, keepsIdentity_iff_of_lower lower_moveEdge rfl rfl⟩

/-- An edge whose identifier is no made-up name keeps it, unless an edge without an identifier
between the same nodes comes before it. -/
theorem keepsIdentity_of_unambiguous {d : RuleDecl} {r : Rule} (h : d.lower = .ok r) {k : Nat}
    {e : EdgeDecl} {id : String} (he : d.rhs.edges[k]? = some e) (hid : e.id = some id)
    (hleft : ∀ e' ∈ d.lhs.edges, e'.id = none → e'.name ≠ id)
    (hright : ∀ k' < k, ∀ e', d.rhs.edges[k']? = some e' → e'.id = none → ¬ e.SameEnds e') :
    r.KeepsIdentity d k e id := by
  have hl := lowered_of_lower h
  exact hl.keepsIdentity_of_undisturbed he hid (hl.undisturbed_of_unambiguous he hid hleft hright)

/-! ### A clash of names -/

/-- A rule that deletes an edge whose made-up name is the identifier of another edge. -/
def nameClash : RuleDecl where
  name := "clash"
  lhs := {
    nodes := [{ id := "a" }, { id := "b" }, { id := "c" }, { id := "d" }]
    edges := [{ source := "a", target := "b" }, { id := "a->b", source := "c", target := "d" }] }
  rhs := {
    nodes := [{ id := "a" }, { id := "b" }, { id := "c" }, { id := "d" }]
    edges := [{ id := "a->b", source := "c", target := "d" }] }

/-- What `nameClash` lowers to. -/
def nameClashRule : Rule where
  name := "clash"
  vars := Variables.empty
  lhs := ⟨#[{}, {}, {}, {}], #[⟨0, 1, {}⟩, ⟨2, 3, {}⟩]⟩
  rhs := ⟨#[{}, {}, {}, {}], #[⟨2, 3, {}⟩]⟩
  delta := {
    preservedNodes := [⟨0, 0, false⟩, ⟨1, 1, false⟩, ⟨2, 2, false⟩, ⟨3, 3, false⟩]
    addedEdges := [⟨0, ⟨.left, 2⟩, ⟨.left, 3⟩⟩] }
  condition := none

theorem lower_nameClash : nameClash.lower = .ok nameClashRule := rfl

/-- The other edge is on both sides with its identifier and its ends, but is not preserved. -/
theorem not_keepsIdentity_nameClash :
    nameClash.lower = .ok nameClashRule ∧
      ∃ e, nameClash.rhs.edges[0]? = some e ∧ e.id = some "a->b" ∧
      IsCounterpart nameClash.lhs.edges e "a->b" 1 ∧
      ¬ nameClashRule.KeepsIdentity nameClash 0 e "a->b" := by
  have hcounterpart :
      IsCounterpart nameClash.lhs.edges { id := "a->b", source := "c", target := "d" } "a->b" 1 :=
    ⟨_, rfl, rfl, rfl, rfl⟩
  refine ⟨lower_nameClash, _, rfl, rfl, hcounterpart, fun h => ?_⟩
  obtain ⟨q, hq, -⟩ := h.preserved_iff.mpr ⟨1, hcounterpart⟩
  cases hq

end GraphTransform
