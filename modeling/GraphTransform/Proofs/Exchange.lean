import GraphTransform.Proofs.Identified
import GraphTransform.Proofs.Predicate

/-!
# Exchanging the sides

A declaration with its sides exchanged should lower to the rule that undoes the first one: what one
adds the other deletes, and what is preserved is preserved in the other direction
(`Rule.IsInverse`). The two sides are treated differently everywhere: left edges are entered into a
table and those of the right side are looked up in it, deleted edges are the ones that no pair has
and added ones are what the lookups leave. So edges without an identifier may be paired differently
in the other direction. If all edges carry one, the rules are inverse
(`isInverse_of_lower_exchange`).

It suffices to see, for one direction, that what the rule deletes is what the first one adds. The
other direction is the same fact of the exchanged declaration, because exchanging the sides twice
changes nothing.
-/

namespace GraphTransform

open Correspondence

/-! ### Statements -/

/-- The declaration with its sides exchanged. -/
def RuleDecl.exchange (d : RuleDecl) : RuleDecl := { d with lhs := d.rhs, rhs := d.lhs }

/-- The item with its sides exchanged. -/
def Preserved.exchange (q : Preserved) : Preserved := ⟨q.right, q.left, q.relabelled⟩

/-- The rule `r'` goes from the right graph of `r` to the left one, and its delta lists undo those
of `r`. -/
structure Rule.IsInverse (r r' : Rule) : Prop where
  /-- It starts from the right graph. -/
  lhs : r'.lhs = r.rhs
  /-- It leads to the left graph. -/
  rhs : r'.rhs = r.lhs
  /-- The same nodes are preserved, and relabelled. -/
  preservedNodes : r'.preservedNodes.Perm (r.preservedNodes.map (·.exchange))
  /-- The same edges are preserved, and relabelled. -/
  preservedEdges : r'.preservedEdges.Perm (r.preservedEdges.map (·.exchange))
  /-- The added nodes are deleted. -/
  deletedNodes : r'.deletedNodes = r.addedNodes
  /-- The deleted nodes are added. -/
  addedNodes : r'.addedNodes = r.deletedNodes
  /-- The added edges are deleted. -/
  deletedEdges : r'.deletedEdges = r.addedEdges.map (·.index)
  /-- The deleted edges are added. -/
  addedEdges : r'.addedEdges.map (·.index) = r.deletedEdges

/-! ### Inverse rules -/

theorem Preserved.exchange_involutive : Function.Involutive Preserved.exchange := fun _ => rfl

/-- Labels differ in both directions. -/
theorem decide_label_ne_comm (a b : Option Label) : decide (a ≠ b) = decide (b ≠ a) :=
  decide_eq_decide.mpr ne_comm

/-- Lists without repetition hold each other's items with their sides exchanged if their members
do. -/
theorem perm_map_exchange {ps ps' : List Preserved} (h : ps.Nodup) (h' : ps'.Nodup)
    (hmem : ∀ q, q ∈ ps' ↔ q.exchange ∈ ps) : ps'.Perm (ps.map (·.exchange)) := by
  refine (List.perm_ext_iff_of_nodup h'
    (h.map Preserved.exchange_involutive.injective)).mpr fun q => ?_
  rw [List.mem_map_of_involutive Preserved.exchange_involutive, hmem]

namespace Rule.IsInverse

variable {r r' : Rule} (h : r.IsInverse r')

include h

theorem symm : r'.IsInverse r := by
  have hback {ps ps' : List Preserved} (hperm : ps'.Perm (ps.map (·.exchange))) :
      ps.Perm (ps'.map (·.exchange)) := by
    have hmap := hperm.map Preserved.exchange
    rw [List.map_map, Preserved.exchange_involutive.comp_self, List.map_id] at hmap
    exact hmap.symm
  exact {
    lhs := h.rhs.symm
    rhs := h.lhs.symm
    preservedNodes := hback h.preservedNodes
    preservedEdges := hback h.preservedEdges
    deletedNodes := h.addedNodes.symm
    addedNodes := h.deletedNodes.symm
    deletedEdges := h.addedEdges.symm
    addedEdges := h.deletedEdges.symm }

theorem changesNothing (hr : r.ChangesNothing) : r'.ChangesNothing := by
  have hlabels {ps ps' : List Preserved} (hperm : ps'.Perm (ps.map (·.exchange)))
      (hps : ∀ q ∈ ps, q.relabelled = false) : ∀ q ∈ ps', q.relabelled = false := by
    intro q hq
    obtain ⟨q', hq', rfl⟩ := List.mem_map.mp (hperm.mem_iff.mp hq)
    exact hps q' hq'
  exact {
    nodeLabels := hlabels h.preservedNodes hr.nodeLabels
    edgeLabels := hlabels h.preservedEdges hr.edgeLabels
    deletedNodes := h.deletedNodes.trans hr.addedNodes
    addedNodes := h.addedNodes.trans hr.deletedNodes
    deletedEdges := by rw [h.deletedEdges, hr.addedEdges, List.map_nil]
    addedEdges := List.map_eq_nil_iff.mp (h.addedEdges.trans hr.deletedEdges) }

/-- A rule and its inverse are predicates both or neither. -/
theorem isPredicate_eq : r'.flags.isPredicate = r.flags.isPredicate := by
  rw [Bool.eq_iff_iff, Rule.isPredicate_iff_changesNothing, Rule.isPredicate_iff_changesNothing]
  exact ⟨h.symm.changesNothing, h.changesNothing⟩

end Rule.IsInverse

/-! ### Nodes -/

/-- Only left nodes are deleted. -/
theorem filterMap_deleted?_nodeEntries (ls rs : List String) :
    (nodeEntries ls rs).filterMap (·.deleted?) =
      ls.filterMap fun id => (ofIds ls rs id).deleted? := by
  have hnone : (rs.filter (· ∉ ls)).filterMap (fun id => (ofIds ls rs id).deleted?) = [] := by
    rw [List.filterMap_eq_nil_iff]
    intro id hid
    have hleft : ls.idxOf? id = none :=
      List.idxOf?_eq_none_iff.mpr (by simpa using (List.mem_filter.mp hid).2)
    rw [deleted?, ofIds, hleft]
  rw [nodeEntries, allIds, List.filterMap_map, List.filterMap_append]
  exact (congrArg _ hnone).trans (List.append_nil _)

/-- Only nodes of the right side are added. -/
theorem filterMap_added?_nodeEntries (ls rs : List String) :
    (nodeEntries ls rs).filterMap (·.added?) = rs.filterMap fun id => (ofIds ls rs id).added? := by
  have hleft {id : String} (hid : id ∈ ls) : (ofIds ls rs id).added? = none := by
    obtain ⟨l, hl⟩ := Option.isSome_iff_exists.mp (List.isSome_idxOf?.mpr hid)
    rw [added?, ofIds, hl]
  have hnone : ls.filterMap (fun id => (ofIds ls rs id).added?) = [] :=
    List.filterMap_eq_nil_iff.mpr fun id hid => hleft hid
  have hfilter : (rs.filter (· ∉ ls)).filterMap (fun id => (ofIds ls rs id).added?) =
      rs.filterMap fun id => (ofIds ls rs id).added? := by
    rw [List.filterMap_filter]
    refine List.filterMap_congr fun id _ => ?_
    by_cases hid : id ∈ ls
    · simp [hid, hleft hid]
    · simp [hid]
  rw [nodeEntries, allIds, List.filterMap_map, List.filterMap_append]
  exact (congrArg (· ++ _) hnone).trans ((List.nil_append _).trans hfilter)

/-- A node is deleted just where it is added when the sides are exchanged. -/
theorem deleted?_ofIds (ls rs : List String) (id : String) :
    (ofIds rs ls id).deleted? = (ofIds ls rs id).added? := by
  rw [deleted?, added?, ofIds, ofIds]
  cases ls.idxOf? id <;> cases rs.idxOf? id <;> rfl

namespace Lowered

variable {d : RuleDecl} {r r' : Rule} (h : Lowered d r) (h' : Lowered d.exchange r')

include h h'

theorem lhs_eq_of_exchange : r'.lhs = r.rhs := h'.lhs.unique h.rhs

theorem rhs_eq_of_exchange : r'.rhs = r.lhs := h'.rhs.unique h.lhs

/-- The nodes that the exchanged rule deletes are those that the rule adds. -/
theorem deletedNodes_of_exchange : r'.deletedNodes = r.addedNodes := by
  rw [h'.deletedNodes, h.addedNodes, RuleDecl.nodeEntries, RuleDecl.nodeEntries,
    filterMap_deleted?_nodeEntries, filterMap_added?_nodeEntries]
  exact List.filterMap_congr fun id _ => deleted?_ofIds d.lhs.nodeIds d.rhs.nodeIds id

theorem mem_preservedNodes_of_exchange {q : Preserved} :
    q ∈ r'.preservedNodes ↔ q.exchange ∈ r.preservedNodes := by
  rw [h'.mem_preservedNodes_iff, h.mem_preservedNodes_iff, h.lhs_eq_of_exchange h',
    h.rhs_eq_of_exchange h', decide_label_ne_comm]
  refine and_congr_left fun _ => exists_congr fun id => ?_
  exact and_comm

theorem perm_preservedNodes_of_exchange :
    r'.preservedNodes.Perm (r.preservedNodes.map (·.exchange)) :=
  perm_map_exchange (.of_map _ h.nodup_preservedNodes_left) (.of_map _ h'.nodup_preservedNodes_left)
    fun _ => h.mem_preservedNodes_of_exchange h'

end Lowered

/-! ### Edges -/

theorem RuleDecl.Identified.exchange {d : RuleDecl} (h : d.Identified) : d.exchange.Identified :=
  ⟨h.right, h.left⟩

/-- Which edges are the same does not depend on the direction. -/
theorem RuleDecl.sameEdge_exchange_iff {d : RuleDecl} {l k : Nat} :
    d.exchange.SameEdge k l ↔ d.SameEdge l k := by
  constructor
  · rintro ⟨e, e', he, he', hid, hs, ht⟩
    exact ⟨e', e, he', he, hid.symm, hs.symm, ht.symm⟩
  · rintro ⟨e, e', he, he', hid, hs, ht⟩
    exact ⟨e', e, he', he, hid.symm, hs.symm, ht.symm⟩

/-- The preserved edges are the pairs, each relabelled if its labels differ. -/
theorem Lowered.mem_preservedEdges_iff_pairs {d : RuleDecl} {r : Rule} (h : Lowered d r)
    {q : Preserved} :
    q ∈ r.preservedEdges ↔ r.Pairs q.left q.right ∧
      q.relabelled = decide (r.lhs.edgeLabel? q.left ≠ r.rhs.edgeLabel? q.right) := by
  rw [h.mem_preservedEdges_iff]
  refine and_congr_left fun _ => ⟨?_, h.exists_edge_of_pairs⟩
  rintro ⟨e, he, hp⟩
  exact (h.exists_preservedEdge_iff he).mpr hp

namespace Lowered

variable {d : RuleDecl} {r r' : Rule} (h : Lowered d r) (h' : Lowered d.exchange r')
  (hid : d.Identified)

include h h' hid

theorem pairs_exchange_iff {l k : Nat} : r'.Pairs k l ↔ r.Pairs l k := by
  rw [h'.pairs_iff_sameEdge hid.exchange, h.pairs_iff_sameEdge hid, RuleDecl.sameEdge_exchange_iff]

theorem mem_preservedEdges_of_exchange {q : Preserved} :
    q ∈ r'.preservedEdges ↔ q.exchange ∈ r.preservedEdges := by
  rw [h'.mem_preservedEdges_iff_pairs, h.mem_preservedEdges_iff_pairs, h.pairs_exchange_iff h' hid,
    h.lhs_eq_of_exchange h', h.rhs_eq_of_exchange h', decide_label_ne_comm]
  rfl

theorem perm_preservedEdges_of_exchange :
    r'.preservedEdges.Perm (r.preservedEdges.map (·.exchange)) :=
  perm_map_exchange (.of_map _ h.nodup_preservedEdges_left) (.of_map _ h'.nodup_preservedEdges_left)
    fun _ => h.mem_preservedEdges_of_exchange h' hid

/-- The edges that the exchanged rule deletes are those that the rule adds: the edges in no pair, in
ascending order. -/
theorem deletedEdges_of_exchange : r'.deletedEdges = r.addedEdges.map (·.index) := by
  refine List.Pairwise.eq_of_mem_iff (List.pairwise_lt_range.filter _)
    h.pairwise_addedEdges fun k => ?_
  rw [h'.mem_deletedEdges_iff, h.mem_addedEdges_iff]
  simp only [h.pairs_exchange_iff h' hid]
  rfl

theorem isInverse_of_exchange : r.IsInverse r' where
  lhs := h.lhs_eq_of_exchange h'
  rhs := h.rhs_eq_of_exchange h'
  preservedNodes := h.perm_preservedNodes_of_exchange h'
  preservedEdges := h.perm_preservedEdges_of_exchange h' hid
  deletedNodes := h.deletedNodes_of_exchange h'
  addedNodes := (h'.deletedNodes_of_exchange h).symm
  deletedEdges := h.deletedEdges_of_exchange h' hid
  addedEdges := (h'.deletedEdges_of_exchange h hid.exchange).symm

end Lowered

/-- **Exchanging the sides inverts the rule**: if all edges carry identifiers and the declaration
lowers in both directions, then the rules are inverse, and predicates both or neither. -/
theorem isInverse_of_lower_exchange {d : RuleDecl} {r r' : Rule} (hid : d.Identified)
    (h : d.lower = .ok r) (h' : d.exchange.lower = .ok r') :
    r.IsInverse r' ∧ r'.flags.isPredicate = r.flags.isPredicate := by
  have hinverse := (lowered_of_lower h).isInverse_of_exchange (lowered_of_lower h') hid
  exact ⟨hinverse, hinverse.isPredicate_eq⟩

/-! ### An instance -/

/-- A rule that replaces a node, moves an edge to the new one, and marks another edge. -/
def replaceNode : RuleDecl where
  name := "replace"
  lhs := {
    nodes := [{ id := "a" }, { id := "b" }, { id := "c" }]
    edges := [
      { id := "e", source := "a", target := "c" },
      { id := "f", source := "b", target := "a" },
      { id := "g", source := "b", target := "b" }] }
  rhs := {
    nodes := [{ id := "d" }, { id := "b" }, { id := "a", label := ⟨.green, []⟩ }]
    edges := [
      { id := "h", source := "d", target := "d" },
      { id := "e", source := "a", target := "d" },
      { id := "f", source := "b", target := "a", label := ⟨.red, []⟩ },
      { id := "g", source := "b", target := "b" }] }

/-- What `replaceNode` lowers to. -/
def replaceNodeRule : Rule where
  name := "replace"
  vars := Variables.empty
  lhs := ⟨#[{}, {}, {}], #[⟨0, 2, {}⟩, ⟨1, 0, {}⟩, ⟨1, 1, {}⟩]⟩
  rhs :=
    ⟨#[{}, {}, ⟨false, ⟨.green, []⟩⟩], #[⟨0, 0, {}⟩, ⟨2, 0, {}⟩, ⟨1, 2, ⟨.red, []⟩⟩, ⟨1, 1, {}⟩]⟩
  delta := {
    preservedNodes := [⟨0, 2, true⟩, ⟨1, 1, false⟩]
    preservedEdges := [⟨1, 2, true⟩, ⟨2, 3, false⟩]
    deletedNodes := [2]
    addedNodes := [0]
    addedEdges := [⟨0, ⟨.right, 0⟩, ⟨.right, 0⟩⟩, ⟨1, ⟨.left, 0⟩, ⟨.right, 0⟩⟩] }
  condition := none

theorem lower_replaceNode : replaceNode.lower = .ok replaceNodeRule := rfl

/-- What `replaceNode` lowers to with its sides exchanged. -/
def restoreNodeRule : Rule where
  name := "replace"
  vars := Variables.empty
  lhs := replaceNodeRule.rhs
  rhs := replaceNodeRule.lhs
  delta := {
    preservedNodes := [⟨1, 1, false⟩, ⟨2, 0, true⟩]
    preservedEdges := [⟨2, 1, true⟩, ⟨3, 2, false⟩]
    deletedNodes := [0]
    addedNodes := [2]
    addedEdges := [⟨0, ⟨.left, 2⟩, ⟨.right, 2⟩⟩] }
  condition := none

theorem lower_exchange_replaceNode : replaceNode.exchange.lower = .ok restoreNodeRule := rfl

/-- The two rules undo each other. -/
theorem isInverse_replaceNode : replaceNode.Identified ∧ replaceNode.lower = .ok replaceNodeRule ∧
    replaceNode.exchange.lower = .ok restoreNodeRule ∧ replaceNodeRule.IsInverse restoreNodeRule ∧
    restoreNodeRule.flags.isPredicate = replaceNodeRule.flags.isPredicate := by
  have hid : replaceNode.Identified := ⟨by decide, by decide⟩
  exact ⟨hid, lower_replaceNode, lower_exchange_replaceNode,
    isInverse_of_lower_exchange hid lower_replaceNode lower_exchange_replaceNode⟩

end GraphTransform
