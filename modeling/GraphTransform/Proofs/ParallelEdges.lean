import GraphTransform.Proofs.Reordering

/-!
# Parallel edges

Several edges may run between the same two nodes. If those of the right side carry no identifiers,
nothing but their order tells them apart, and then they are paired in order
(`pairsInOrder_of_lower`): the first with the first left edge between the nodes, the second with the
second, and so on. What is left over on the right is added, and what is left over on the left is
deleted. No other edge of the declaration gets in the way, not even one whose identifier is the name
made up for these edges: pairs have the same ends.
-/

namespace GraphTransform

open Delta (takenBefore)

/-! ### Statement -/

/-- The edges from `s` to `t` of the right side, by their indices in ascending order. -/
def RuleDecl.rightBetween (d : RuleDecl) (s t : String) : List Nat :=
  d.rhs.edges.findIdxs fun e => e.source = s ∧ e.target = t

/-- The left edges `ls` and the edges `ks` of the right side are paired in order. -/
structure Rule.PairsInOrder (r : Rule) (ls ks : List Nat) : Prop where
  /-- At every place that both lists have, the edges are preserved with each other. -/
  preserved : ∀ i l k : Nat, ls[i]? = some l → ks[i]? = some k → r.Pairs l k
  /-- The edges of the right side at later places are added. -/
  added : ∀ k ∈ ks.drop ls.length, k ∈ r.addedEdges.map (·.index)
  /-- The left edges at later places are deleted. -/
  deleted : ∀ l ∈ ls.drop ks.length, l ∈ r.deletedEdges

/-! ### Places in increasing lists -/

/-- An entry of an increasing list has one place. -/
theorem place_unique {xs : List Nat} (h : xs.Pairwise (· < ·)) {i j x : Nat} (hi : xs[i]? = some x)
    (hj : xs[j]? = some x) : i = j := by
  rcases lt_trichotomy i j with hlt | heq | hlt
  · exact absurd (rel_of_pairwise h hi hj hlt) (lt_irrefl x)
  · exact heq
  · exact absurd (rel_of_pairwise h hj hi hlt) (lt_irrefl x)

/-- A smaller entry has an earlier place. -/
theorem exists_place_of_lt {xs : List Nat} (h : xs.Pairwise (· < ·)) {i x y : Nat}
    (hy : xs[i]? = some y) (hx : x ∈ xs) (hlt : x < y) : ∃ j < i, xs[j]? = some x := by
  obtain ⟨j, hj⟩ := List.mem_iff_getElem?.mp hx
  rcases lt_trichotomy j i with hji | rfl | hij
  · exact ⟨j, hji, hj⟩
  · exact absurd (Option.some.inj (hj.symm.trans hy)) hlt.ne
  · exact absurd (rel_of_pairwise h hy hj hij) hlt.asymm

/-- A list has an entry at every place before one that it has. -/
theorem exists_getElem?_of_lt {xs : List Nat} {i j x : Nat} (hi : xs[i]? = some x) (hlt : j < i) :
    ∃ y, xs[j]? = some y := by
  obtain ⟨hi, -⟩ := List.getElem?_eq_some_iff.mp hi
  exact ⟨_, List.getElem?_eq_getElem (hlt.trans hi)⟩

/-- What is left of a list is what has a later place. -/
theorem exists_place_of_mem_drop {xs : List Nat} {n x : Nat} (h : x ∈ xs.drop n) :
    ∃ i, n ≤ i ∧ xs[i]? = some x := by
  obtain ⟨i, hi⟩ := List.mem_iff_getElem?.mp h
  exact ⟨n + i, Nat.le_add_right n i, by rwa [List.getElem?_drop] at hi⟩

/-! ### Edges between two nodes -/

theorem RuleDecl.mem_rightBetween_iff {d : RuleDecl} {s t : String} {k : Nat} :
    k ∈ d.rightBetween s t ↔ ∃ e, d.rhs.edges[k]? = some e ∧ e.source = s ∧ e.target = t := by
  rw [rightBetween, List.mem_findIdxs_iff_exists_getElem_pos]
  simp [List.getElem?_eq_some_iff]

theorem RuleDecl.pairwise_rightBetween {d : RuleDecl} {s t : String} :
    (d.rightBetween s t).Pairwise (· < ·) :=
  List.pairwise_findIdxs

namespace Lowered

variable {d : RuleDecl} {r : Rule} (h : Lowered d r) {s t : String}

include h

/-- The edges of a pair run between the same nodes. -/
theorem mem_rightBetween_iff_of_pairs {l k : Nat} (hp : r.Pairs l k) :
    k ∈ d.rightBetween s t ↔ l ∈ d.leftBetween s t := by
  obtain ⟨e, he, hpartner⟩ := h.exists_edge_of_pairs hp
  obtain ⟨e', he', hs, ht⟩ := hpartner.sameEnds
  rw [RuleDecl.mem_rightBetween_iff, RuleDecl.mem_leftBetween_iff]
  simp [he, he', hs, ht]

section NoIdentifiers

variable (hid : ∀ e ∈ d.rhs.edges, e.source = s → e.target = t → e.id = none)

include hid

/-- **The edges at the same place are a pair.** All pairs at earlier places have been made by then,
and no others between the nodes, so the left edge at the place is the first that is free. -/
theorem pairs_of_place {i l k : Nat} (hl : (d.leftBetween s t)[i]? = some l)
    (hk : (d.rightBetween s t)[i]? = some k) : r.Pairs l k := by
  induction i using Nat.strong_induction_on generalizing l k with
  | _ i ih =>
    obtain ⟨e, he, hs, ht⟩ := RuleDecl.mem_rightBetween_iff.mp (List.mem_of_getElem? hk)
    have hnone := hid e (List.mem_of_getElem? he) hs ht
    have hbetween : ∀ l' e', d.lhs.edges[l']? = some e' → e.SameEnds e' → l' ∈ d.leftBetween s t :=
      fun l' e' he' hsame => RuleDecl.mem_leftBetween_iff.mpr
        ⟨e', he', hsame.1.trans hs, hsame.2.trans ht⟩
    refine (h.exists_preservedEdge_iff he).mpr
      ((isPartner_iff_of_none hnone).mpr ⟨fun htaken => ?_, ?_, ?_⟩)
    · -- the edge that had taken it would have an earlier place, and so another partner
      obtain ⟨k', hlt, hp⟩ := mem_takenBefore_iff.mp htaken
      have hk' := (h.mem_rightBetween_iff_of_pairs hp).mpr (List.mem_of_getElem? hl)
      obtain ⟨j, hj, hkj⟩ := exists_place_of_lt RuleDecl.pairwise_rightBetween hk hk' hlt
      obtain ⟨l', hlj⟩ := exists_getElem?_of_lt hl hj
      obtain rfl := h.left_eq_of_pairs hp (ih j hj hlj hkj)
      exact hj.ne (place_unique RuleDecl.pairwise_leftBetween hlj hl)
    · obtain ⟨e', he', hs', ht'⟩ := RuleDecl.mem_leftBetween_iff.mp (List.mem_of_getElem? hl)
      exact ⟨e', he', hs'.trans hs.symm, ht'.trans ht.symm⟩
    · intro l' hlt hfree e' he' hsame
      obtain ⟨j, hj, hlj⟩ :=
        exists_place_of_lt RuleDecl.pairwise_leftBetween hl (hbetween l' e' he' hsame) hlt
      obtain ⟨k', hkj⟩ := exists_getElem?_of_lt hk hj
      exact hfree (mem_takenBefore_iff.mpr
        ⟨k', rel_of_pairwise RuleDecl.pairwise_rightBetween hkj hk hj, ih j hj hlj hkj⟩)

/-- Edges that are a pair have the same place: at the earlier one of their places, one of them has
its partner. -/
theorem place_eq_of_pairs {i j l k : Nat} (hl : (d.leftBetween s t)[i]? = some l)
    (hk : (d.rightBetween s t)[j]? = some k) (hp : r.Pairs l k) : i = j := by
  rcases lt_trichotomy i j with hlt | heq | hlt
  · obtain ⟨k', hk'⟩ := exists_getElem?_of_lt hk hlt
    obtain rfl := h.right_eq_of_pairs hp (h.pairs_of_place hid hl hk')
    exact place_unique RuleDecl.pairwise_rightBetween hk' hk
  · exact heq
  · obtain ⟨l', hl'⟩ := exists_getElem?_of_lt hl hlt
    obtain rfl := h.left_eq_of_pairs hp (h.pairs_of_place hid hl' hk)
    exact place_unique RuleDecl.pairwise_leftBetween hl hl'

/-- An edge of the right side is in no pair if there are not as many left edges. -/
theorem not_pairs_of_late_right {j k : Nat} (hk : (d.rightBetween s t)[j]? = some k)
    (hlate : (d.leftBetween s t).length ≤ j) (l : Nat) : ¬ r.Pairs l k := by
  intro hp
  have hmem := (h.mem_rightBetween_iff_of_pairs hp).mp (List.mem_of_getElem? hk)
  obtain ⟨i, hl⟩ := List.mem_iff_getElem?.mp hmem
  obtain rfl := h.place_eq_of_pairs hid hl hk hp
  exact absurd (List.getElem?_eq_some_iff.mp hl).1 (Nat.not_lt.mpr hlate)

/-- A left edge is in no pair if there are not as many edges of the right side. -/
theorem not_pairs_of_late_left {i l : Nat} (hl : (d.leftBetween s t)[i]? = some l)
    (hlate : (d.rightBetween s t).length ≤ i) (k : Nat) : ¬ r.Pairs l k := by
  intro hp
  have hmem := (h.mem_rightBetween_iff_of_pairs hp).mpr (List.mem_of_getElem? hl)
  obtain ⟨j, hk⟩ := List.mem_iff_getElem?.mp hmem
  obtain rfl := h.place_eq_of_pairs hid hl hk hp
  exact absurd (List.getElem?_eq_some_iff.mp hk).1 (Nat.not_lt.mpr hlate)

end NoIdentifiers

end Lowered

/-- **Parallel edges are paired in order.** If no edge from `s` to `t` of the right side carries an
identifier, then each is preserved with the left edge from `s` to `t` that has the same place, and
what is left over on either side is added or deleted, whatever the other edges are. -/
theorem pairsInOrder_of_lower {d : RuleDecl} {r : Rule} (h : d.lower = .ok r) {s t : String}
    (hid : ∀ e ∈ d.rhs.edges, e.source = s → e.target = t → e.id = none) :
    r.PairsInOrder (d.leftBetween s t) (d.rightBetween s t) := by
  have hl := lowered_of_lower h
  refine ⟨fun i l k hli hki => hl.pairs_of_place hid hli hki, fun k hk => ?_, fun l hl' => ?_⟩
  · obtain ⟨j, hlate, hkj⟩ := exists_place_of_mem_drop hk
    obtain ⟨e, he, -⟩ := RuleDecl.mem_rightBetween_iff.mp (List.mem_of_getElem? hkj)
    have hlt := (List.getElem?_eq_some_iff.mp he).1
    exact hl.mem_addedEdges_iff.mpr ⟨hlt, hl.not_pairs_of_late_right hid hkj hlate⟩
  · obtain ⟨i, hlate, hli⟩ := exists_place_of_mem_drop hl'
    obtain ⟨e, he, -⟩ := RuleDecl.mem_leftBetween_iff.mp (List.mem_of_getElem? hli)
    have hlt := (List.getElem?_eq_some_iff.mp he).1
    exact hl.mem_deletedEdges_iff.mpr ⟨hlt, hl.not_pairs_of_late_left hid hli hlate⟩

/-! ### An instance -/

/-- A rule that keeps two of three parallel edges, next to an edge whose identifier is the name made
up for them. -/
def threeToTwo : RuleDecl where
  name := "three to two"
  lhs := {
    nodes := [{ id := "a" }, { id := "b" }]
    edges := [
      { source := "a", target := "b", label := ⟨.red, []⟩ },
      { source := "a", target := "b" },
      { id := "a->b", source := "b", target := "a" },
      { source := "a", target := "b" }] }
  rhs := {
    nodes := [{ id := "b" }, { id := "a" }]
    edges := [
      { source := "a", target := "b" },
      { id := "a->b", source := "b", target := "a" },
      { source := "a", target := "b" }] }

/-- What `threeToTwo` lowers to. -/
def threeToTwoRule : Rule where
  name := "three to two"
  vars := Variables.empty
  lhs := ⟨#[{}, {}], #[⟨0, 1, ⟨.red, []⟩⟩, ⟨0, 1, {}⟩, ⟨1, 0, {}⟩, ⟨0, 1, {}⟩]⟩
  rhs := ⟨#[{}, {}], #[⟨1, 0, {}⟩, ⟨0, 1, {}⟩, ⟨1, 0, {}⟩]⟩
  delta := {
    preservedNodes := [⟨0, 1, false⟩, ⟨1, 0, false⟩]
    preservedEdges := [⟨0, 0, true⟩, ⟨1, 2, false⟩]
    addedEdges := [⟨1, ⟨.left, 1⟩, ⟨.left, 0⟩⟩] }
  condition := none

theorem lower_threeToTwo : threeToTwo.lower = .ok threeToTwoRule := rfl

/-- The third of the parallel edges is left over. -/
theorem pairsInOrder_threeToTwo :
    threeToTwo.lower = .ok threeToTwoRule ∧
      (∀ e ∈ threeToTwo.rhs.edges, e.source = "a" → e.target = "b" → e.id = none) ∧
      threeToTwo.leftBetween "a" "b" = [0, 1, 3] ∧ threeToTwo.rightBetween "a" "b" = [0, 2] ∧
      threeToTwoRule.PairsInOrder (threeToTwo.leftBetween "a" "b")
        (threeToTwo.rightBetween "a" "b") := by
  have hid : ∀ e ∈ threeToTwo.rhs.edges, e.source = "a" → e.target = "b" → e.id = none := by decide
  exact ⟨lower_threeToTwo, hid, by decide, by decide, pairsInOrder_of_lower lower_threeToTwo hid⟩

end GraphTransform
