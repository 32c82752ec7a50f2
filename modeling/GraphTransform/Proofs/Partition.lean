import GraphTransform.Proofs.Lowered

/-!
# The delta lists partition the items

Every node and every edge of the left graph is preserved or deleted, and every one of the right
graph is preserved or added; none is both, and none is listed twice. For nodes this is seen on the
correspondences, each of which goes to exactly one of the lists. For edges it follows from the run
of the pairing, which takes no left edge twice and leaves no edge of the right side out.
-/

namespace GraphTransform

open Correspondence

/-- The indices below `n` occur in the list exactly once each, and no other does. -/
def EachOnce (n : Nat) (is : List Nat) : Prop := ∀ i, is.count i = if i < n then 1 else 0

theorem eachOnce_iff {n : Nat} {is : List Nat} :
    EachOnce n is ↔ is.Nodup ∧ ∀ i, i ∈ is ↔ i < n := by
  constructor
  · intro h
    refine ⟨List.nodup_iff_count_le_one.mpr fun i => ?_, fun i => ?_⟩
    · rw [h i]
      split <;> omega
    · rw [← List.one_le_count_iff, h i]
      split <;> omega
  · rintro ⟨hnodup, hmem⟩ i
    by_cases hi : i < n
    · rw [if_pos hi, List.count_eq_one_of_mem hnodup ((hmem i).mpr hi)]
    · rw [if_neg hi, List.count_eq_zero_of_not_mem (mt (hmem i).mp hi)]

theorem EachOnce.perm {n : Nat} {is js : List Nat} (h : EachOnce n is) (hperm : js.Perm is) :
    EachOnce n js :=
  fun i => (hperm.count_eq i).trans (h i)

theorem eachOnce_range (n : Nat) : EachOnce n (List.range n) :=
  eachOnce_iff.mpr ⟨List.nodup_range, fun _ => List.mem_range⟩

theorem EachOnce.perm_range {n : Nat} {is : List Nat} (h : EachOnce n is) :
    is.Perm (List.range n) :=
  List.perm_iff_count.mpr fun i => (h i).trans (eachOnce_range n i).symm

/-- The delta lists account for each item of both graphs exactly once. -/
structure Rule.Partitioned (r : Rule) : Prop where
  /-- The nodes of the left graph are preserved or deleted. -/
  leftNodes : EachOnce r.lhs.nodes.size (r.preservedNodes.map (·.left) ++ r.deletedNodes)
  /-- The nodes of the right graph are preserved or added. -/
  rightNodes : EachOnce r.rhs.nodes.size (r.preservedNodes.map (·.right) ++ r.addedNodes)
  /-- The edges of the left graph are preserved or deleted. -/
  leftEdges : EachOnce r.lhs.edges.size (r.preservedEdges.map (·.left) ++ r.deletedEdges)
  /-- The edges of the right graph are preserved or added. -/
  rightEdges : EachOnce r.rhs.edges.size
    (r.preservedEdges.map (·.right) ++ r.addedEdges.map (·.index))
  /-- The test for a deleted edge agrees with the list. -/
  isEdgeDeleted_iff : ∀ i, r.isEdgeDeleted i = true ↔ i ∈ r.deletedEdges

/-! ### Nodes -/

/-- Each correspondence with a left index is that of a preserved or of a deleted node. -/
theorem perm_filterMap_left (lhs rhs : Graph) (cs : List Correspondence) :
    ((cs.filterMap (·.preserved? lhs rhs)).map (·.left) ++ cs.filterMap (·.deleted?)).Perm
      (cs.filterMap (·.left)) := by
  induction cs with
  | nil => exact .nil
  | cons c cs ih =>
    rcases c with ⟨id, _ | l, _ | r, source, target⟩
    · exact ih
    · exact ih
    · exact List.perm_middle.trans (ih.cons l)
    · exact ih.cons l

/-- Each correspondence with a right index is that of a preserved or of an added node. -/
theorem perm_filterMap_right (lhs rhs : Graph) (cs : List Correspondence) :
    ((cs.filterMap (·.preserved? lhs rhs)).map (·.right) ++ cs.filterMap (·.added?)).Perm
      (cs.filterMap (·.right)) := by
  induction cs with
  | nil => exact .nil
  | cons c cs ih =>
    rcases c with ⟨id, _ | l, _ | r, source, target⟩
    · exact ih
    · exact List.perm_middle.trans (ih.cons r)
    · exact ih
    · exact ih.cons r

/-- The positions that identifiers have on a side that has no others are those of the side. -/
theorem eachOnce_filterMap_idxOf? {all ids : List String} (hall : all.Nodup) (hids : ids.Nodup)
    (hsub : ∀ id ∈ ids, id ∈ all) : EachOnce ids.length (all.filterMap ids.idxOf?) := by
  rw [eachOnce_iff]
  constructor
  · refine hall.filterMap fun id id' i hi hi' => ?_
    rw [Option.mem_def, idxOf?_eq_some_iff_getElem? hids] at hi hi'
    exact Option.some.inj (hi.symm.trans hi')
  · intro i
    simp only [List.mem_filterMap, idxOf?_eq_some_iff_getElem? hids]
    constructor
    · rintro ⟨id, -, hi⟩
      exact (List.getElem?_eq_some_iff.mp hi).1
    · intro hi
      exact ⟨ids[i], hsub _ (List.getElem_mem hi), List.getElem?_eq_getElem hi⟩

namespace Lowered

variable {d : RuleDecl} {r : Rule} (h : Lowered d r)

include h

theorem eachOnce_leftNodes :
    EachOnce r.lhs.nodes.size (r.preservedNodes.map (·.left) ++ r.deletedNodes) := by
  rw [h.preservedNodes, h.deletedNodes, h.lhs.size_nodes]
  refine EachOnce.perm ?_ (perm_filterMap_left r.lhs r.rhs d.nodeEntries)
  rw [RuleDecl.nodeEntries, nodeEntries, List.filterMap_map]
  refine eachOnce_filterMap_idxOf? (nodup_allIds h.leftIds h.rightIds) h.leftIds fun _ hid => ?_
  exact mem_allIds.mpr (Or.inl hid)

theorem eachOnce_rightNodes :
    EachOnce r.rhs.nodes.size (r.preservedNodes.map (·.right) ++ r.addedNodes) := by
  rw [h.preservedNodes, h.addedNodes, h.rhs.size_nodes]
  refine EachOnce.perm ?_ (perm_filterMap_right r.lhs r.rhs d.nodeEntries)
  rw [RuleDecl.nodeEntries, nodeEntries, List.filterMap_map]
  refine eachOnce_filterMap_idxOf? (nodup_allIds h.leftIds h.rightIds) h.rightIds fun _ hid => ?_
  exact mem_allIds.mpr (Or.inr hid)

end Lowered

/-! ### Edges -/

theorem Rule.mem_deletedEdges_iff {r : Rule} {i : Nat} :
    i ∈ r.deletedEdges ↔ i < r.lhs.edges.size ∧ i ∉ r.preservedEdges.map (·.left) := by
  rw [deletedEdges, List.mem_filter, List.mem_range]
  simp [Delta.deletesEdge, preservedEdges]

theorem Rule.isEdgeDeleted_iff_mem {r : Rule} {i : Nat} :
    r.isEdgeDeleted i = true ↔ i ∈ r.deletedEdges := by
  rw [isEdgeDeleted, deletedEdges, List.mem_filter, List.mem_range, Bool.and_eq_true,
    decide_eq_true_eq]

namespace Lowered

variable {d : RuleDecl} {r : Rule} (h : Lowered d r)

include h

/-- A preserved edge is one of the left graph. -/
theorem left_lt_of_mem_preservedEdges {q : Preserved} (hq : q ∈ r.preservedEdges) :
    q.left < r.lhs.edges.size := by
  obtain ⟨⟨e, -, hpartner⟩, -⟩ := h.mem_preservedEdges_iff.mp hq
  obtain ⟨e', he', -⟩ := hpartner.sameEnds
  rw [h.lhs.size_edges]
  exact (List.getElem?_eq_some_iff.mp he').1

theorem eachOnce_leftEdges :
    EachOnce r.lhs.edges.size (r.preservedEdges.map (·.left) ++ r.deletedEdges) := by
  rw [eachOnce_iff]
  constructor
  · refine List.Nodup.append h.nodup_preservedEdges_left
      (List.nodup_range.filter _) fun i hi hi' => ?_
    exact (Rule.mem_deletedEdges_iff.mp hi').2 hi
  · intro i
    rw [List.mem_append, Rule.mem_deletedEdges_iff]
    constructor
    · rintro (hi | hi)
      · obtain ⟨q, hq, rfl⟩ := List.mem_map.mp hi
        exact h.left_lt_of_mem_preservedEdges hq
      · exact hi.1
    · intro hi
      by_cases hmem : i ∈ r.preservedEdges.map (·.left)
      · exact Or.inl hmem
      · exact Or.inr ⟨hi, hmem⟩

theorem eachOnce_rightEdges :
    EachOnce r.rhs.edges.size (r.preservedEdges.map (·.right) ++ r.addedEdges.map (·.index)) := by
  rw [h.rhs.size_edges]
  exact (eachOnce_range _).perm h.perm_rightEdges

theorem length_leftEdges :
    r.preservedEdges.length + r.deletedEdges.length = d.lhs.edges.length := by
  simpa [h.lhs.size_edges] using h.eachOnce_leftEdges.perm_range.length_eq

theorem length_rightEdges : r.preservedEdges.length + r.addedEdges.length = d.rhs.edges.length := by
  simpa using h.perm_rightEdges.length_eq

end Lowered

/-- **The delta lists of a rule that a declaration lowers to partition the items of both
graphs.** -/
theorem partitioned_of_lower {d : RuleDecl} {r : Rule} (h : d.lower = .ok r) : r.Partitioned := by
  have hl := lowered_of_lower h
  exact {
    leftNodes := hl.eachOnce_leftNodes
    rightNodes := hl.eachOnce_rightNodes
    leftEdges := hl.eachOnce_leftEdges
    rightEdges := hl.eachOnce_rightEdges
    isEdgeDeleted_iff := fun _ => Rule.isEdgeDeleted_iff_mem }

/-- The rule that moves an edge is an instance. -/
theorem partitioned_moveEdgeRule : moveEdge.lower = .ok moveEdgeRule ∧ moveEdgeRule.Partitioned :=
  ⟨lower_moveEdge, partitioned_of_lower lower_moveEdge⟩

end GraphTransform
