import GraphTransform.Proofs.Predicate

/-!
# Declarations with equal sides

When both sides of a declaration are equal, every item should be preserved as itself, whatever names
and ends its edges share (`isIdentity_of_lower`). Nodes have identifiers of their own. Edges may
have none, run in parallel, or be named as another one is by its made-up name, so that an edge may
well be found by a name that is not its own. That never happens here: when the edges of the right
side come in the order of the left ones and each takes its copy, exactly those before the next one
are gone, and so this one is the first of all that are left (`isPartner_self`).
-/

namespace GraphTransform

open Correspondence
open Delta (Pairing Paired)

/-- The first `n` items, each paired with the one of the same index and not relabelled, in order. -/
def selfPairs (n : Nat) : List Preserved := (List.range n).map fun i => ⟨i, i, false⟩

/-- The rule preserves every item as itself, and does nothing else. -/
structure Rule.IsIdentity (r : Rule) : Prop where
  /-- Each node is preserved as the node with the same index. -/
  preservedNodes : r.preservedNodes = selfPairs r.lhs.nodes.size
  /-- Each edge is preserved as the edge with the same index. -/
  preservedEdges : r.preservedEdges = selfPairs r.lhs.edges.size
  /-- No node is deleted. -/
  deletedNodes : r.deletedNodes = []
  /-- No node is added. -/
  addedNodes : r.addedNodes = []
  /-- No edge is deleted. -/
  deletedEdges : r.deletedEdges = []
  /-- No edge is added. -/
  addedEdges : r.addedEdges = []
  /-- It is a predicate. -/
  isPredicate : r.flags.isPredicate = true

theorem eachOnce_left_selfPairs (n : Nat) : EachOnce n ((selfPairs n).map (·.left)) := by
  simpa [selfPairs, Function.comp_def] using eachOnce_range n

theorem eachOnce_right_selfPairs (n : Nat) : EachOnce n ((selfPairs n).map (·.right)) := by
  simpa [selfPairs, Function.comp_def] using eachOnce_range n

theorem relabelled_of_mem_selfPairs {n : Nat} {q : Preserved} (hq : q ∈ selfPairs n) :
    q.relabelled = false := by
  obtain ⟨i, -, rfl⟩ := List.mem_map.mp hq
  rfl

/-! ### Edges that find themselves -/

/-- An edge seeks itself. -/
theorem EdgeDecl.seeks_self (e : EdgeDecl) : e.Seeks e := by
  unfold Seeks
  cases hid : e.id with
  | none => exact ⟨rfl, rfl⟩
  | some id =>
    rw [name, hid]

/-- When exactly the left edges before it are taken, an edge is its own partner. -/
theorem isPartner_self {es : List EdgeDecl} {k : Nat} {e : EdgeDecl} (he : es[k]? = some e) :
    IsPartner es {l | l < k} e k where
  first := ⟨lt_irrefl k, ⟨e, he, e.seeks_self⟩, fun _ hlt hfree => absurd hlt hfree⟩
  sameEnds := ⟨e, he, rfl, rfl⟩

/-- **From any edge on, each edge is paired with itself**, if those before are taken. -/
theorem Delta.Paired.preserved_self {lhs rhs : Graph} {es rest : List EdgeDecl} {k : Nat}
    {p : Pairing} (hrest : es.drop k = rest) (h : Paired lhs rhs es {l | l < k} (rest.zipIdx k) p) :
    p.preserved =
      (List.range' k rest.length).map fun j => ⟨j, j, lhs.edgeLabel? j ≠ rhs.edgeLabel? j⟩ := by
  -- the induction is on the edges that are left; the taken ones stay an initial segment
  induction rest generalizing k p with
  | nil =>
    cases h
    rfl
  | cons e rest ih =>
    have he : es[k]? = some e := by rw [← List.head?_drop, hrest, List.head?_cons]
    have hdrop : es.drop (k + 1) = rest := by rw [← List.tail_drop, hrest, List.tail_cons]
    have htaken : insert k {l | l < k} = {l | l < k + 1} := by
      ext l
      simp only [Set.mem_insert_iff, Set.mem_ofPred_eq]
      omega
    rw [List.zipIdx_cons] at h
    cases h with
    | pair hp hpaired =>
      obtain rfl := (isPartner_self he).unique hp
      rw [htaken] at hpaired
      exact congrArg (List.cons _) (ih hdrop hpaired)
    | add hnone _ => exact absurd (isPartner_self he) (hnone k)

/-! ### Rules with equal sides -/

/-- Equal sides have a correspondence for each identifier of one of them. -/
theorem nodeEntries_self (ids : List String) : nodeEntries ids ids = ids.map (ofIds ids ids) := by
  have hnone : ids.filter (· ∉ ids) = [] := by simp
  rw [nodeEntries, allIds, hnone, List.append_nil]

namespace Lowered

variable {d : RuleDecl} {r : Rule} (h : Lowered d r) (hd : d.rhs = d.lhs)

include h hd

theorem nodeLabel?_eq_of_equalSides (i : Nat) : r.rhs.nodeLabel? i = r.lhs.nodeLabel? i := by
  rw [h.rhs.nodeLabel?, hd, h.lhs.nodeLabel?]

theorem edgeLabel?_eq_of_equalSides (j : Nat) : r.rhs.edgeLabel? j = r.lhs.edgeLabel? j := by
  rw [h.rhs.edgeLabel?, hd, h.lhs.edgeLabel?]

theorem preservedNodes_of_equalSides : r.preservedNodes = selfPairs r.lhs.nodes.size := by
  have hids : d.rhs.nodeIds = d.lhs.nodeIds := by rw [hd]
  have hpositions : r.preservedNodes =
      d.lhs.nodeIds.map fun id => ⟨d.lhs.nodeIds.idxOf id, d.lhs.nodeIds.idxOf id, false⟩ := by
    rw [h.preservedNodes, RuleDecl.nodeEntries, hids, nodeEntries_self, List.filterMap_map,
      List.filterMap_eq_map_iff_forall_eq_some]
    intro id hid
    have hpos : d.lhs.nodeIds.idxOf? id = some (d.lhs.nodeIds.idxOf id) :=
      (idxOf?_eq_some_iff_getElem? h.leftIds).mpr (List.getElem?_idxOf hid)
    simp [preserved?, ofIds, hpos, h.nodeLabel?_eq_of_equalSides hd]
  rw [hpositions, h.lhs.size_nodes, selfPairs]
  refine List.ext_getElem (by simp) fun i hi _ => ?_
  simp [h.leftIds.idxOf_getElem]

theorem preservedEdges_of_equalSides : r.preservedEdges = selfPairs r.lhs.edges.size := by
  obtain ⟨p, hp, hpreserved, -⟩ := h.edges
  have hempty : (∅ : Set Nat) = {l | l < 0} := by simp
  rw [hd, hempty] at hp
  rw [hpreserved, hp.preserved_self List.drop_zero, h.lhs.size_edges, selfPairs,
    List.range_eq_range']
  simp only [h.edgeLabel?_eq_of_equalSides hd, ne_eq, not_true_eq_false, decide_false]

/-- When every item of the left side is preserved, there is none left to delete or add. -/
theorem changesNothing_of_equalSides : r.ChangesNothing := by
  have hnodes := h.preservedNodes_of_equalSides hd
  have hedges := h.preservedEdges_of_equalSides hd
  have hsizeNodes : r.rhs.nodes.size = r.lhs.nodes.size := by
    rw [h.rhs.size_nodes, hd, h.lhs.size_nodes]
  have hsizeEdges : r.rhs.edges.size = r.lhs.edges.size := by
    rw [h.rhs.size_edges, hd, h.lhs.size_edges]
  exact {
    nodeLabels := hnodes ▸ fun _ => relabelled_of_mem_selfPairs
    edgeLabels := hedges ▸ fun _ => relabelled_of_mem_selfPairs
    deletedNodes := h.eachOnce_leftNodes.left_iff.mp (hnodes ▸ eachOnce_left_selfPairs _)
    addedNodes :=
      h.eachOnce_rightNodes.left_iff.mp (hnodes ▸ hsizeNodes ▸ eachOnce_right_selfPairs _)
    deletedEdges := h.eachOnce_leftEdges.left_iff.mp (hedges ▸ eachOnce_left_selfPairs _)
    addedEdges := List.map_eq_nil_iff.mp
      (h.eachOnce_rightEdges.left_iff.mp (hedges ▸ hsizeEdges ▸ eachOnce_right_selfPairs _)) }

end Lowered

/-- **A declaration with equal sides lowers to a rule that preserves every item as itself.** -/
theorem isIdentity_of_lower {d : RuleDecl} {r : Rule} (h : d.lower = .ok r) (hd : d.rhs = d.lhs) :
    r.IsIdentity := by
  have hl := lowered_of_lower h
  have hchanges := hl.changesNothing_of_equalSides hd
  exact {
    preservedNodes := hl.preservedNodes_of_equalSides hd
    preservedEdges := hl.preservedEdges_of_equalSides hd
    deletedNodes := hchanges.deletedNodes
    addedNodes := hchanges.addedNodes
    deletedEdges := hchanges.deletedEdges
    addedEdges := hchanges.addedEdges
    isPredicate := Rule.isPredicate_iff_changesNothing.mpr hchanges }

/-- A rule with equal sides: two parallel edges without an identifier, and between them a loop that
has the name made up for them. -/
def sharedName : RuleDecl where
  name := "same"
  lhs := {
    nodes := [{ id := "a", root := true }, { id := "b" }]
    edges := [{ source := "a", target := "b" }, { id := "a->b", source := "b", target := "b" },
      { source := "a", target := "b", label := ⟨.red, []⟩ }] }
  rhs := {
    nodes := [{ id := "a", root := true }, { id := "b" }]
    edges := [{ source := "a", target := "b" }, { id := "a->b", source := "b", target := "b" },
      { source := "a", target := "b", label := ⟨.red, []⟩ }] }

/-- What `sharedName` lowers to. -/
def sharedNameRule : Rule where
  name := "same"
  vars := Variables.empty
  lhs := ⟨#[{ root := true }, {}], #[⟨0, 1, {}⟩, ⟨1, 1, {}⟩, ⟨0, 1, ⟨.red, []⟩⟩]⟩
  rhs := ⟨#[{ root := true }, {}], #[⟨0, 1, {}⟩, ⟨1, 1, {}⟩, ⟨0, 1, ⟨.red, []⟩⟩]⟩
  delta := {
    preservedNodes := [⟨0, 0, false⟩, ⟨1, 1, false⟩]
    preservedEdges := [⟨0, 0, false⟩, ⟨1, 1, false⟩, ⟨2, 2, false⟩] }
  condition := none

theorem lower_sharedName : sharedName.lower = .ok sharedNameRule := rfl

/-- The edges that share a name are an instance. -/
theorem isIdentity_sharedNameRule :
    sharedName.lower = .ok sharedNameRule ∧ sharedName.rhs = sharedName.lhs ∧
      sharedNameRule.IsIdentity :=
  ⟨lower_sharedName, rfl, isIdentity_of_lower lower_sharedName rfl⟩

end GraphTransform
