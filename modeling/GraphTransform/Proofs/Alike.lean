import GraphTransform.Proofs.Violations

/-!
# Declarations that differ in identifiers of edges

Identifiers of edges decide which edges are preserved, and nothing else. Two declarations are alike
(`RuleDecl.Alike`) if one becomes the other when its edges get other identifiers or lose them. If
one of them lowers, so does the other, to a rule that differs in the lists of edges at most
(`exists_lower_of_alike`); and to the same rule if every edge of the right side has the same partner
in both (`lower_of_alike`).

That is seen by following both loops of pairing at once (`Paired.preserved_eq`).
-/

namespace GraphTransform

open Correspondence (Table nodeEntries)
open Delta (Pairing Paired takenBefore)

/-- The edges have everything in common but for identifiers. -/
structure EdgeDecl.Alike (e e' : EdgeDecl) : Prop where
  /-- The source. -/
  source : e'.source = e.source
  /-- The target. -/
  target : e'.target = e.target
  /-- The label. -/
  label : e'.label = e.label

/-- The sides have everything in common but for identifiers of edges. -/
structure GraphDecl.Alike (g g' : GraphDecl) : Prop where
  /-- The nodes. -/
  nodes : g'.nodes = g.nodes
  /-- The edges. -/
  edges : List.Forall₂ EdgeDecl.Alike g.edges g'.edges

/-- The declarations have everything in common but for identifiers of edges. -/
structure RuleDecl.Alike (d d' : RuleDecl) : Prop where
  /-- The name. -/
  name : d'.name = d.name
  /-- The variables. -/
  vars : d'.vars = d.vars
  /-- The left side. -/
  lhs : d.lhs.Alike d'.lhs
  /-- The right side. -/
  rhs : d.rhs.Alike d'.rhs
  /-- The condition. -/
  condition : d'.condition = d.condition

theorem GraphDecl.Alike.nodeIds {g g' : GraphDecl} (h : g.Alike g') : g'.nodeIds = g.nodeIds := by
  rw [GraphDecl.nodeIds, h.nodes, GraphDecl.nodeIds]

/-- Every edge has the one that is alike at the same place. -/
theorem GraphDecl.Alike.exists_edge {g g' : GraphDecl} (h : g.Alike g') {i : Nat} {e : EdgeDecl}
    (he : g.edges[i]? = some e) : ∃ e', g'.edges[i]? = some e' ∧ e.Alike e' := by
  obtain ⟨hlt, rfl⟩ := List.getElem?_eq_some_iff.mp he
  have hlt' : i < g'.edges.length := h.edges.length_eq ▸ hlt
  exact ⟨_, List.getElem?_eq_getElem hlt', h.edges.get hlt hlt'⟩

/-! ### The sides -/

theorem Edge.Realizes.of_alike {E : Edge} {ids : List String} {e e' : EdgeDecl}
    (h : E.Realizes ids e) (he : e.Alike e') : E.Realizes ids e' where
  source := he.source ▸ h.source
  target := he.target ▸ h.target
  label := h.label.trans he.label.symm

namespace Lowering

theorem withEdges_of_alike {t : Table} {ls rs : List String} (h : t.Holds (nodeEntries ls rs))
    {side : Side} {G G' : Graph} {es es' : List EdgeDecl} (hes : List.Forall₂ EdgeDecl.Alike es es')
    (hok : withEdges t side G es = .ok G') : withEdges t side G es' = .ok G' := by
  rw [withEdges_eq_ok_iff h] at hok ⊢
  obtain ⟨new, hnew, rfl⟩ := hok
  exact ⟨new, forall₂_trans (fun _ _ _ hE he => hE.of_alike he) hnew hes, rfl⟩

/-- The sides are built alike but for the table of the left edges. -/
theorem sides_of_alike {d d' : RuleDecl} (h : d.Alike d') (hleft : d'.lhs.edgeIds.Nodup)
    (hright : d'.rhs.edgeIds.Nodup) {s : Sides} (hs : (sides d).result = .ok s) :
    (sides d').result = .ok { s with leftEdges := leftEdges d'.lhs.edges.zipIdx } := by
  have hsteps := sides_eq_ok_iff.mp hs
  have hleftIds : d'.lhs.nodeIds.Nodup := h.lhs.nodeIds ▸ (checkIds_eq_ok_iff.mp hsteps.leftIds).1
  have hrightIds : d'.rhs.nodeIds.Nodup := h.rhs.nodeIds ▸ (checkIds_eq_ok_iff.mp hsteps.rightIds).1
  exact sides_eq_ok_iff.mpr {
    vars := h.vars ▸ hsteps.vars
    leftIds := checkIds_eq_ok_iff.mpr ⟨hleftIds, hleft⟩
    rightIds := checkIds_eq_ok_iff.mpr ⟨hrightIds, hright⟩
    lhs := h.lhs.nodes ▸ withEdges_of_alike hsteps.leftNodes_holds h.lhs.edges hsteps.lhs
    leftEdges := rfl
    nodes := by rw [h.lhs.nodes, h.rhs.nodes, hsteps.nodes]
    rhs := h.rhs.nodes ▸ withEdges_of_alike hsteps.nodes_holds h.rhs.edges hsteps.rhs
    labels := hsteps.labels }

end Lowering

/-! ### Pairing -/

namespace Delta

/-- Edges at the same index of two right sides are alike and have the same partner among the left
edges `es` and `es'`, when those at `taken k` are taken, `k` being the index. -/
structure PairedAlike (es es' : List EdgeDecl) (taken : Nat → Set Nat) (c c' : EdgeDecl × Nat) :
    Prop where
  /-- They are alike. -/
  alike : c.1.Alike c'.1
  /-- The index is the same. -/
  index : c'.2 = c.2
  /-- The partner is the same. -/
  partner : ∀ l, IsPartner es (taken c.2) c.1 l ↔ IsPartner es' (taken c.2) c'.1 l

/-- The correspondences are those of edges of right sides that are alike and have the same index. -/
def AddedAlike (c c' : Correspondence) : Prop :=
  ∃ (e e' : EdgeDecl) (k : Nat), e.Alike e' ∧ c = e.correspondence .right k ∧
    c' = e'.correspondence .right k

/-- **Edges that have the same partner all along are paired in the same way.** -/
theorem Paired.preserved_eq {lhs rhs : Graph} {es es' : List EdgeDecl} {taken : Set Nat}
    {list list' : List (EdgeDecl × Nat)} {p p' : Pairing} (h : Paired lhs rhs es taken list p)
    (h' : Paired lhs rhs es' taken list' p') (hsorted : list.Pairwise (·.2 < ·.2))
    {T : Nat → Set Nat} (hT : ∀ c ∈ list, T c.2 = taken ∪ takenBefore p.preserved c.2)
    (hlists : List.Forall₂ (PairedAlike es es' T) list list') :
    p'.preserved = p.preserved ∧ List.Forall₂ AddedAlike p.unpaired p'.unpaired := by
  -- both loops go on in the same way: by `hT`, their next edges look for partners when the same
  -- left edges are taken
  induction h generalizing list' p' with
  | nil =>
    cases hlists
    cases h'
    exact ⟨rfl, .nil⟩
  | @pair taken e r l rest p hp hrest ih =>
    rw [List.pairwise_cons] at hsorted
    rw [List.forall_mem_cons] at hT
    obtain ⟨hThead, hTrest⟩ := hT
    have hfirst : T r = taken := by
      rw [hThead, Pairing.pair, takenBefore_cons_of_le le_rfl,
        hrest.union_takenBefore_head hsorted.1]
    have hlater : ∀ c ∈ rest, T c.2 = insert l taken ∪ takenBefore p.preserved c.2 := by
      intro c hc
      rw [hTrest c hc, Pairing.pair, union_takenBefore_cons (hsorted.1 c hc)]
    cases hlists with
    | @cons _ c' _ list' hhead hlists =>
      obtain ⟨e', r'⟩ := c'
      obtain rfl : r' = r := hhead.index
      have hp' : IsPartner es' taken e' l := hfirst ▸ (hhead.partner l).mp (hfirst.symm ▸ hp)
      cases h' with
      | @pair _ _ _ l' _ p' hp'' hrest' =>
        obtain rfl := hp'.unique hp''
        obtain ⟨hpreserved, hadded⟩ := ih hrest' hsorted.2 hlater hlists
        exact ⟨congrArg (List.cons _) hpreserved, hadded⟩
      | add hnone' _ => exact absurd hp' (hnone' l)
  | @add taken e r rest p hnone hrest ih =>
    rw [List.pairwise_cons] at hsorted
    rw [List.forall_mem_cons] at hT
    obtain ⟨hThead, hTrest⟩ := hT
    have hfirst : T r = taken := by
      rw [hThead, Pairing.add, hrest.union_takenBefore_head hsorted.1]
    cases hlists with
    | @cons _ c' _ list' hhead hlists =>
      obtain ⟨e', r'⟩ := c'
      obtain rfl : r' = r := hhead.index
      cases h' with
      | @pair _ _ _ l' _ p' hp'' _ =>
        exact absurd (hfirst ▸ (hhead.partner l').mpr (hfirst.symm ▸ hp'')) (hnone l')
      | add _ hrest' =>
        obtain ⟨hpreserved, hadded⟩ := ih hrest' hsorted.2 hTrest hlists
        exact ⟨hpreserved, .cons ⟨e, e', r', hhead.alike, rfl, rfl⟩ hadded⟩

theorem addedEdge_of_alike {nodes : Table} {ls rs : List String}
    (h : nodes.Holds (nodeEntries ls rs)) (A : AddedEdge) (c c' : Correspondence)
    (hA : addedEdge nodes c = .ok A) (hc : AddedAlike c c') : addedEdge nodes c' = .ok A := by
  obtain ⟨e, e', k, he, rfl, rfl⟩ := hc
  rw [addedEdge_eq_ok_iff h] at hA ⊢
  exact ⟨hA.index, he.source ▸ hA.source, he.target ▸ hA.target⟩

/-- Right sides whose edges are alike are aligned if every edge has the same partner in both. -/
theorem forall₂_pairedAlike {es es' : List EdgeDecl} {T : Nat → Set Nat} {rhs rhs' : List EdgeDecl}
    (h : List.Forall₂ EdgeDecl.Alike rhs rhs')
    (hpartner : ∀ k e e', rhs[k]? = some e → rhs'[k]? = some e' →
      ∀ l, IsPartner es (T k) e l ↔ IsPartner es' (T k) e' l) :
    List.Forall₂ (PairedAlike es es' T) rhs.zipIdx rhs'.zipIdx := by
  refine List.forall₂_iff_get.mpr ⟨by simpa using h.length_eq, fun k hk hk' => ?_⟩
  simp only [List.length_zipIdx] at hk hk'
  simp only [List.get_eq_getElem, List.getElem_zipIdx, Nat.zero_add]
  refine ⟨h.get hk hk', rfl, ?_⟩
  exact hpartner k _ _ (List.getElem?_eq_getElem hk) (List.getElem?_eq_getElem hk')

/-- The lists of edges are the same if every edge of the right side has the same partner. -/
theorem ofEdges_of_alike {es es' rhsEdges rhsEdges' : List EdgeDecl} {edges edges' nodes : Table}
    {ls rs : List String} {lhs rhs : Graph} (h : edges.Remains es ∅) (h' : edges'.Remains es' ∅)
    (hnodes : nodes.Holds (nodeEntries ls rs))
    (hedges : List.Forall₂ EdgeDecl.Alike rhsEdges rhsEdges') {preserved : List Preserved}
    {added : List AddedEdge} {remaining : Table}
    (hok : (ofEdges rhsEdges edges nodes lhs rhs).result = .ok (preserved, added, remaining))
    (hpartner : ∀ k e e', rhsEdges[k]? = some e → rhsEdges'[k]? = some e' →
      ∀ l, IsPartner es (takenBefore preserved k) e l ↔
      IsPartner es' (takenBefore preserved k) e' l) :
    ∃ remaining', (ofEdges rhsEdges' edges' nodes lhs rhs).result =
      .ok (preserved, added, remaining') := by
  obtain ⟨p, hp, rfl, hadded⟩ := ofEdges_eq_ok h hok
  have hp' := paired_pairEdges lhs rhs h' rhsEdges'.zipIdx
  obtain ⟨hpreserved, hunpaired⟩ := hp.preserved_eq hp' (pairwise_zipIdx rhsEdges)
    (fun _ _ => (Set.empty_union _).symm) (forall₂_pairedAlike hedges hpartner)
  have hadded' := mapM_eq_ok_iff.mpr (forall₂_trans (addedEdge_of_alike hnodes) hadded hunpaired)
  exact ⟨_, by rw [ofEdges_result h', hadded', hpreserved]; rfl⟩

end Delta

/-! ### Lowering -/

section Lowering

variable {d d' : RuleDecl} {r : Rule} (h : d.lower = .ok r) (hd : d.Alike d')
  (hleft : d'.lhs.edgeIds.Nodup) (hright : d'.rhs.edgeIds.Nodup)

include h hd hleft hright

/-- **Declarations that are alike lower to rules that differ in the lists of edges at most.** -/
theorem exists_lower_of_alike : ∃ preservedEdges addedEdges,
    d'.lower = .ok { r with delta := { r.delta with preservedEdges, addedEdges } } := by
  obtain ⟨s, hs, δ, hδ, hcondition, rfl⟩ := RuleDecl.lower_eq_ok_iff.mp h
  have hs' := Lowering.sides_of_alike hd hleft hright hs
  obtain ⟨δ', hδ'⟩ := Lowering.exists_delta (Lowering.built_of_sides hs')
  obtain ⟨preserved, added, remaining, hedges, rfl⟩ := Lowering.delta_eq_ok_iff.mp hδ
  obtain ⟨preserved', added', remaining', hedges', rfl⟩ := Lowering.delta_eq_ok_iff.mp hδ'
  refine ⟨preserved', added', RuleDecl.lower_eq_ok_iff.mpr
    ⟨_, hs', _, hδ', hd.condition ▸ hcondition, ?_⟩⟩
  rw [hd.name, hd.condition]

/-- **Declarations that are alike lower to the same rule** if every edge of the right side has the
same partner. -/
theorem lower_of_alike (hpartner : ∀ k e e', d.rhs.edges[k]? = some e → d'.rhs.edges[k]? = some e' →
    ∀ l, IsPartner d.lhs.edges (takenBefore r.preservedEdges k) e l ↔
      IsPartner d'.lhs.edges (takenBefore r.preservedEdges k) e' l) : d'.lower = .ok r := by
  obtain ⟨s, hs, δ, hδ, hcondition, rfl⟩ := RuleDecl.lower_eq_ok_iff.mp h
  have hs' := Lowering.sides_of_alike hd hleft hright hs
  have hbuilt := Lowering.built_of_sides hs
  have hbuilt' := Lowering.built_of_sides hs'
  obtain ⟨preserved, added, remaining, hedges, rfl⟩ := Lowering.delta_eq_ok_iff.mp hδ
  obtain ⟨remaining', hedges'⟩ :=
    Delta.ofEdges_of_alike hbuilt.leftEdges.remains hbuilt'.leftEdges.remains
    hbuilt.nodes hd.rhs.edges hedges hpartner
  have hδ' := Lowering.delta_eq_ok_iff.mpr ⟨preserved, added, remaining', hedges', rfl⟩
  refine RuleDecl.lower_eq_ok_iff.mpr ⟨_, hs', _, hδ', hd.condition ▸ hcondition, ?_⟩
  rw [hd.name, hd.condition]

end Lowering

end GraphTransform
