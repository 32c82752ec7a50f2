import GraphTransform.Proofs.Violations
import Mathlib.Data.List.Perm.Basic
import Mathlib.Data.Set.Function
import Mathlib.Order.Interval.Set.Defs

/-!
# The order of declarations

In which order variables and nodes are declared does not matter. If they are permuted, the
declaration still lowers, and the rule is the same but for the numbers of its nodes
(`Rule.Renumbered`): every index of a node follows the permutation of the nodes of its side, and an
anchor that of the side that it refers to (`exists_renumbered_of_perm`).

All indices of nodes come from one fact. An identifier is found at a position of the new list that
the permutation takes its old position to (`Relocates`). So the correspondence of every node has
renumbered indices, and the table of the nodes holds the same correspondences in another order
(`perm_nodeEntries`). The edges are paired by their positions and the identifiers of their ends,
which stay.
-/

namespace GraphTransform

open Correspondence
open Delta (Paired)

/-! ### Statements -/

/-- The declaration with other lists of variables and nodes. -/
def RuleDecl.withDecls (d : RuleDecl) (vars : List Variable) (left right : List NodeDecl) :
    RuleDecl :=
  { d with vars, lhs := { d.lhs with nodes := left }, rhs := { d.rhs with nodes := right } }

/-- The function takes the positions of `xs` one-to-one to the positions of `ys`, where the same
entries are. -/
structure Carries {α : Type} (f : Nat → Nat) (xs ys : List α) : Prop where
  /-- It is a bijection between the positions. -/
  bijOn : Set.BijOn f (Set.Iio xs.length) (Set.Iio ys.length)
  /-- The entries are the same. -/
  getElem? : ∀ i < xs.length, ys[f i]? = xs[i]?

/-- The edge with its ends renumbered. -/
def Edge.renumber (f : Nat → Nat) (E : Edge) : Edge :=
  { E with source := f E.source, target := f E.target }

/-- The node with its indices renumbered, by a function for each side. -/
def Preserved.renumber (f g : Nat → Nat) (q : Preserved) : Preserved :=
  { q with left := f q.left, right := g q.right }

/-- The anchor with its index renumbered by the function for its side. -/
def Anchor.renumber (f g : Nat → Nat) (a : Anchor) : Anchor :=
  match a.side with
  | .left => { a with index := f a.index }
  | .right => { a with index := g a.index }

/-- The edge with its anchors renumbered. -/
def AddedEdge.renumber (f g : Nat → Nat) (A : AddedEdge) : AddedEdge :=
  { A with source := A.source.renumber f g, target := A.target.renumber f g }

/-- The graph `G'` is `G` with its nodes renumbered. -/
structure Graph.Renumbered (f : Nat → Nat) (G G' : Graph) : Prop where
  /-- The nodes are the same at their new numbers. -/
  nodes : Carries f G.nodes.toList G'.nodes.toList
  /-- The edges are the same, in their order, between the new numbers. -/
  edges : G'.edges = G.edges.map (·.renumber f)

/-- The rule `r'` is `r` with its left nodes renumbered by `f` and its right nodes by `g`. -/
structure Rule.Renumbered (f g : Nat → Nat) (r r' : Rule) : Prop where
  /-- The name. -/
  name : r'.name = r.name
  /-- The variables, in any order. -/
  vars : r'.vars.toList.Perm r.vars.toList
  /-- The left graph. -/
  lhs : r.lhs.Renumbered f r'.lhs
  /-- The right graph. -/
  rhs : r.rhs.Renumbered g r'.rhs
  /-- The nodes of both graphs, in any order. -/
  preservedNodes : r'.preservedNodes.Perm (r.preservedNodes.map (·.renumber f g))
  /-- The nodes of the left graph only, in any order. -/
  deletedNodes : r'.deletedNodes.Perm (r.deletedNodes.map f)
  /-- The nodes of the right graph only, in any order. -/
  addedNodes : r'.addedNodes.Perm (r.addedNodes.map g)
  /-- The edges of both graphs. -/
  preservedEdges : r'.preservedEdges = r.preservedEdges
  /-- The edges of the left graph only. -/
  deletedEdges : r'.deletedEdges = r.deletedEdges
  /-- The edges of the right graph only, in their order. -/
  addedEdges : r'.addedEdges = r.addedEdges.map (·.renumber f g)
  /-- The condition. -/
  condition : r'.condition = r.condition

/-! ### Permuted lists -/

/-- The positions of a list are carried to those of every permutation of it. -/
theorem exists_carries {α : Type} [DecidableEq α] {xs ys : List α} (h : ys.Perm xs) :
    ∃ f, Carries f xs ys := by
  -- the bijection between the positions as a function on numbers; what it does beyond the positions
  -- does not matter
  refine ⟨fun i => if hi : i < xs.length then h.symm.idxBij ⟨i, hi⟩ else i,
    ⟨fun i hi => ?_, ?_, ?_⟩, fun i hi => ?_⟩
  · rw [Set.mem_Iio] at hi
    simp only [hi, dite_true, Set.mem_Iio, Fin.is_lt]
  · intro i hi j hj heq
    rw [Set.mem_Iio] at hi hj
    simp only [hi, hj, dite_true] at heq
    simpa using h.symm.idxBij_injective (Fin.ext heq)
  · intro j hj
    obtain ⟨i, hi⟩ := h.symm.idxBij_surjective ⟨j, hj⟩
    exact ⟨i, i.isLt, by simp only [Fin.is_lt, dite_true, Fin.eta, hi]⟩
  · rw [dif_pos hi, List.getElem?_eq_getElem (Fin.isLt _), List.getElem?_eq_getElem hi]
    exact congrArg some (h.symm.getElem_idxBij_eq_getElem ⟨i, hi⟩)

namespace Carries

variable {α β : Type} {f : Nat → Nat} {xs ys : List α} (h : Carries f xs ys)

include h

theorem map (φ : α → β) : Carries f (xs.map φ) (ys.map φ) where
  bijOn := by simpa using h.bijOn
  getElem? i hi := by
    rw [List.length_map] at hi
    rw [List.getElem?_map, List.getElem?_map, h.getElem? i hi]

/-- An entry is at a position just if that is where one of its positions is taken to. -/
theorem getElem?_eq_some_iff {x : α} {j : Nat} :
    ys[j]? = some x ↔ ∃ i, xs[i]? = some x ∧ f i = j := by
  constructor
  · intro hj
    obtain ⟨i, hi, rfl⟩ := h.bijOn.surjOn (List.getElem?_eq_some_iff.mp hj).1
    exact ⟨i, h.getElem? i hi ▸ hj, rfl⟩
  · rintro ⟨i, hi, rfl⟩
    rw [h.getElem? i (List.getElem?_eq_some_iff.mp hi).1, hi]

theorem mem_iff {x : α} : x ∈ ys ↔ x ∈ xs := by
  simp only [List.mem_iff_getElem?, h.getElem?_eq_some_iff]
  constructor
  · rintro ⟨_, i, hi, -⟩
    exact ⟨i, hi⟩
  · rintro ⟨i, hi⟩
    exact ⟨f i, i, hi, rfl⟩

end Carries

/-- Every identifier is found at the position that the function takes its old one to. -/
def Relocates (f : Nat → Nat) (ids ids' : List String) : Prop :=
  ∀ id, ids'.idxOf? id = (ids.idxOf? id).map f

theorem Carries.relocates {f : Nat → Nat} {ids ids' : List String} (h : Carries f ids ids')
    (hids : ids.Nodup) (hids' : ids'.Nodup) : Relocates f ids ids' := by
  intro id
  refine Option.ext fun j => ?_
  rw [idxOf?_eq_some_iff_getElem? hids', h.getElem?_eq_some_iff, Option.map_eq_some_iff]
  simp only [idxOf?_eq_some_iff_getElem? hids]

theorem Relocates.mem_iff {f : Nat → Nat} {ids ids' : List String} (h : Relocates f ids ids')
    {id : String} : id ∈ ids' ↔ id ∈ ids := by
  rw [← List.isSome_idxOf?, h id, Option.isSome_map, List.isSome_idxOf?]

/-! ### Graphs -/

/-- An edge runs between the new positions of its ends. -/
theorem Edge.Realizes.renumber {E : Edge} {ids ids' : List String} {e : EdgeDecl}
    (h : E.Realizes ids e) {f : Nat → Nat} (hf : Relocates f ids ids') :
    (E.renumber f).Realizes ids' e where
  source := by
    rw [hf, h.source]
    rfl
  target := by
    rw [hf, h.target]
    rfl
  label := h.label

namespace Graph

variable {G G' : Graph} {f : Nat → Nat}

/-- The graphs of a side with the same nodes in another order. -/
theorem Realizes.renumbered {g : GraphDecl} {nodes : List NodeDecl} (h : G.Realizes g)
    (h' : G'.Realizes { g with nodes }) (hnodes : Carries f g.nodes nodes)
    (hids : Relocates f g.nodeIds (nodes.map (·.id))) : G.Renumbered f G' where
  nodes := by
    rw [h.nodes, h'.nodes]
    exact hnodes.map _
  edges := by
    have hedges : List.Forall₂ (fun E e => E.Realizes (nodes.map (·.id)) e)
        (G.edges.map (·.renumber f)).toList g.edges := by
      rw [Array.toList_map, List.forall₂_map_left_iff]
      exact h.edges.imp fun _ _ hE => hE.renumber hids
    exact Array.toList_inj.mp
      (List.left_unique_forall₂' (fun _ _ _ hE hE' => hE.unique hE') h'.edges hedges)

namespace Renumbered

variable (h : G.Renumbered f G')

include h

theorem nodeLabel? {i : Nat} (hi : i < G.nodes.size) : G'.nodeLabel? (f i) = G.nodeLabel? i := by
  have hnode := h.nodes.getElem? i hi
  rw [Array.getElem?_toList, Array.getElem?_toList] at hnode
  rw [Graph.nodeLabel?, Graph.nodeLabel?, hnode]

theorem edgeLabel? (k : Nat) : G'.edgeLabel? k = G.edgeLabel? k := by
  rw [Graph.edgeLabel?, Graph.edgeLabel?, h.edges, Array.getElem?_map, Option.map_map]
  rfl

theorem size_edges : G'.edges.size = G.edges.size := by rw [h.edges, Array.size_map]

theorem hasRoot_eq : G'.hasRoot = G.hasRoot := by
  rw [Bool.eq_iff_iff, hasRoot, hasRoot, ← Array.any_toList, ← Array.any_toList, List.any_eq_true,
    List.any_eq_true]
  simp only [h.nodes.mem_iff]

end Renumbered

end Graph

/-! ### Nodes -/

namespace Correspondence

/-- The correspondence with its indices renumbered. -/
def renumber (f g : Nat → Nat) (c : Correspondence) : Correspondence :=
  { c with left := c.left.map f, right := c.right.map g }

section Renumber

variable {f g : Nat → Nat} {c : Correspondence}

theorem preserved?_renumber {lhs lhs' rhs rhs' : Graph} (hlhs : lhs.Renumbered f lhs')
    (hrhs : rhs.Renumbered g rhs') (hleft : ∀ l ∈ c.left, l < lhs.nodes.size)
    (hright : ∀ k ∈ c.right, k < rhs.nodes.size) :
    (c.renumber f g).preserved? lhs' rhs' = (c.preserved? lhs rhs).map (·.renumber f g) := by
  obtain ⟨id, left, right, source, target⟩ := c
  cases left with
  | none => rfl
  | some l =>
    cases right with
    | none => rfl
    | some k =>
      have hl := hlhs.nodeLabel? (hleft l rfl)
      have hk := hrhs.nodeLabel? (hright k rfl)
      simp only [renumber, preserved?, Option.map_some, hl, hk, Preserved.renumber]

theorem deleted?_renumber : (c.renumber f g).deleted? = c.deleted?.map f := by
  rw [deleted?, deleted?, renumber]
  cases c.left <;> cases c.right <;> rfl

theorem added?_renumber : (c.renumber f g).added? = c.added?.map g := by
  rw [added?, added?, renumber]
  cases c.left <;> cases c.right <;> rfl

end Renumber

variable {f g : Nat → Nat} {ls ls' rs rs' : List String} (hf : Relocates f ls ls')
  (hg : Relocates g rs rs')

include hf hg

theorem ofIds_renumber (id : String) : ofIds ls' rs' id = (ofIds ls rs id).renumber f g := by
  rw [ofIds, hf id, hg id]
  rfl

/-- **The table of the nodes holds the renumbered correspondences**, in another order. -/
theorem perm_nodeEntries (hls : ls.Nodup) (hrs : rs.Nodup) (hls' : ls'.Nodup) (hrs' : rs'.Nodup) :
    (nodeEntries ls' rs').Perm ((nodeEntries ls rs).map (·.renumber f g)) := by
  have hids : (allIds ls' rs').Perm (allIds ls rs) := by
    rw [List.perm_ext_iff_of_nodup (nodup_allIds hls' hrs') (nodup_allIds hls hrs)]
    intro id
    rw [mem_allIds, mem_allIds, hf.mem_iff, hg.mem_iff]
  rw [nodeEntries, nodeEntries, List.map_map]
  refine (hids.map _).trans (.of_eq (List.map_congr_left fun id _ => ?_))
  exact ofIds_renumber hf hg id

end Correspondence

/-! ### Edges -/

/-- Pairing reads the labels of the edges of both graphs and nothing else of them. -/
theorem Delta.Paired.unique {lhs lhs' rhs rhs' : Graph} {es : List EdgeDecl} {taken : Set Nat}
    {list : List (EdgeDecl × Nat)} {p p' : Delta.Pairing}
    (hlhs : ∀ k, lhs'.edgeLabel? k = lhs.edgeLabel? k)
    (hrhs : ∀ k, rhs'.edgeLabel? k = rhs.edgeLabel? k) (h : Paired lhs rhs es taken list p)
    (h' : Paired lhs' rhs' es taken list p') :
    p'.preserved = p.preserved ∧ p'.unpaired = p.unpaired := by
  induction h generalizing p' with
  | nil =>
    cases h'
    exact ⟨rfl, rfl⟩
  | pair hp _ ih =>
    cases h' with
    | pair hp' hrest' =>
      obtain rfl := hp.unique hp'
      obtain ⟨hpreserved, hunpaired⟩ := ih hrest'
      refine ⟨?_, hunpaired⟩
      rw [Delta.Pairing.pair, Delta.Pairing.pair, hpreserved, hlhs, hrhs]
    | add hnone' _ => exact absurd hp (hnone' _)
  | add hnone _ ih =>
    cases h' with
    | pair hp' _ => exact absurd hp' (hnone _)
    | add _ hrest' =>
      obtain ⟨hpreserved, hunpaired⟩ := ih hrest'
      exact ⟨hpreserved, congrArg (List.cons _) hunpaired⟩

/-- Which edges are deleted depends on the preserved edges alone. -/
theorem Delta.deletesEdge_eq {δ δ' : Delta} (h : δ'.preservedEdges = δ.preservedEdges) :
    δ'.deletesEdge = δ.deletesEdge := by
  funext i
  rw [deletesEdge, deletesEdge, h]

namespace Anchor

variable {a a' : Anchor} {ls rs : List String} {id : String}

/-- A node has one anchor. -/
theorem Denotes.unique (h : a.Denotes ls rs id) (h' : a'.Denotes ls rs id) : a = a' := by
  have hmem {i : Nat} (hi : ls.idxOf? id = some i) : id ∈ ls :=
    List.isSome_idxOf?.mp (by rw [hi]; rfl)
  obtain ⟨side, i⟩ := a
  obtain ⟨side', i'⟩ := a'
  cases side <;> cases side'
  · exact congrArg _ (Option.some.inj (h.1.symm.trans h'.1))
  · exact absurd (hmem h.1) h'.2
  · exact absurd (hmem h'.1) h.2
  · exact congrArg _ (Option.some.inj (h.1.symm.trans h'.1))

/-- The anchor of a node follows the permutation of its side. -/
theorem Denotes.renumber {ls' rs' : List String} {f g : Nat → Nat} (h : a.Denotes ls rs id)
    (hf : Relocates f ls ls') (hg : Relocates g rs rs') : (a.renumber f g).Denotes ls' rs' id := by
  obtain ⟨side, i⟩ := a
  cases side with
  | left =>
    refine ⟨?_, hg.mem_iff.mpr h.2⟩
    rw [hf, h.1]
    rfl
  | right =>
    refine ⟨?_, mt hf.mem_iff.mp h.2⟩
    rw [hg, h.1]
    rfl

end Anchor

namespace AddedEdge.Realizes

variable {A : AddedEdge} {ls rs : List String} {e : EdgeDecl} {k : Nat}

theorem renumber {ls' rs' : List String} {f g : Nat → Nat} (h : A.Realizes ls rs e k)
    (hf : Relocates f ls ls') (hg : Relocates g rs rs') : (A.renumber f g).Realizes ls' rs' e k :=
  ⟨h.index, h.source.renumber hf hg, h.target.renumber hf hg⟩

/-- Edges that are added for the same correspondence are the same. -/
theorem unique {A' : AddedEdge} {e' : EdgeDecl} {k' : Nat} (h : A.Realizes ls rs e k)
    (h' : A'.Realizes ls rs e' k') (hc : e.correspondence .right k = e'.correspondence .right k') :
    A = A' := by
  simp only [EdgeDecl.correspondence, Correspondence.mk.injEq, if_true, Option.some.injEq] at hc
  obtain ⟨-, -, rfl, hsource, htarget⟩ := hc
  obtain ⟨index, source, target⟩ := A
  obtain ⟨index', source', target'⟩ := A'
  rw [AddedEdge.mk.injEq]
  exact ⟨h.index.trans h'.index.symm, h.source.unique (hsource ▸ h'.source),
    h.target.unique (htarget ▸ h'.target)⟩

end AddedEdge.Realizes

/-! ### The renumbered rule -/

/-- The name, the variables and the condition of a rule are the declared ones. -/
theorem RuleDecl.kept_of_lower {d : RuleDecl} {r : Rule} (h : d.lower = .ok r) :
    r.name = d.name ∧ r.vars.toList = d.vars ∧ r.condition = d.condition := by
  obtain ⟨s, hs, δ, -, -, rfl⟩ := RuleDecl.lower_eq_ok_iff.mp h
  exact ⟨rfl, (Variables.holds_empty.declareAll (Lowering.built_of_sides hs).vars).decls, rfl⟩

namespace Lowered

section Sides

variable {d : RuleDecl} {vars : List Variable} {left right : List NodeDecl} {r r' : Rule}
  {f g : Nat → Nat} (h : Lowered d r) (h' : Lowered (d.withDecls vars left right) r')

include h h'

theorem relocates_left (hleft : Carries f d.lhs.nodes left) :
    Relocates f d.lhs.nodeIds (d.withDecls vars left right).lhs.nodeIds :=
  (hleft.map _).relocates h.leftIds h'.leftIds

theorem relocates_right (hright : Carries g d.rhs.nodes right) :
    Relocates g d.rhs.nodeIds (d.withDecls vars left right).rhs.nodeIds :=
  (hright.map _).relocates h.rightIds h'.rightIds

theorem renumbered_lhs (hleft : Carries f d.lhs.nodes left) : r.lhs.Renumbered f r'.lhs :=
  h.lhs.renumbered h'.lhs hleft (h.relocates_left h' hleft)

theorem renumbered_rhs (hright : Carries g d.rhs.nodes right) : r.rhs.Renumbered g r'.rhs :=
  h.rhs.renumbered h'.rhs hright (h.relocates_right h' hright)

end Sides

section Rules

variable {d : RuleDecl} {vars : List Variable} {left right : List NodeDecl} {r r' : Rule}
  {f g : Nat → Nat} (h : Lowered d r) (h' : Lowered (d.withDecls vars left right) r')
  (hleft : Carries f d.lhs.nodes left) (hright : Carries g d.rhs.nodes right)

include h h' hleft hright

theorem perm_nodeEntries :
    (d.withDecls vars left right).nodeEntries.Perm (d.nodeEntries.map (·.renumber f g)) :=
  Correspondence.perm_nodeEntries (h.relocates_left h' hleft)
    (h.relocates_right h' hright) h.leftIds h.rightIds h'.leftIds h'.rightIds

/-- What is read off the correspondences of the nodes is renumbered if what is read off each one
is. -/
theorem perm_filterMap_nodeEntries {β : Type} {φ φ' : Correspondence → Option β} {ψ : β → β}
    (hφ : ∀ c ∈ d.nodeEntries, φ' (c.renumber f g) = (φ c).map ψ) :
    ((d.withDecls vars left right).nodeEntries.filterMap φ').Perm
      ((d.nodeEntries.filterMap φ).map ψ) := by
  rw [List.map_filterMap]
  refine ((h.perm_nodeEntries h' hleft hright).filterMap φ').trans (.of_eq ?_)
  rw [List.filterMap_map]
  exact List.filterMap_congr hφ

theorem perm_preservedNodes : r'.preservedNodes.Perm (r.preservedNodes.map (·.renumber f g)) := by
  rw [h'.preservedNodes, h.preservedNodes]
  refine h.perm_filterMap_nodeEntries h' hleft hright fun c hc => ?_
  obtain ⟨id, -, rfl⟩ := List.mem_map.mp hc
  refine preserved?_renumber (h.renumbered_lhs h' hleft) (h.renumbered_rhs h' hright)
    (fun l hl => ?_) fun k hk => ?_
  · rw [h.lhs.size_nodes]
    exact (List.idxOf?_eq_some_iff.mp hl).1
  · rw [h.rhs.size_nodes]
    exact (List.idxOf?_eq_some_iff.mp hk).1

theorem perm_deletedNodes : r'.deletedNodes.Perm (r.deletedNodes.map f) := by
  rw [h'.deletedNodes, h.deletedNodes]
  exact h.perm_filterMap_nodeEntries h' hleft hright fun c _ => deleted?_renumber

theorem perm_addedNodes : r'.addedNodes.Perm (r.addedNodes.map g) := by
  rw [h'.addedNodes, h.addedNodes]
  exact h.perm_filterMap_nodeEntries h' hleft hright fun c _ => added?_renumber

/-- The edges are paired in the same way, and the same edges are added, between the new numbers. -/
theorem edges_eq :
    r'.preservedEdges = r.preservedEdges ∧ r'.addedEdges = r.addedEdges.map (·.renumber f g) := by
  obtain ⟨p, hp, hpreserved, hadded⟩ := h.edges
  obtain ⟨p', hp', hpreserved', hadded'⟩ := h'.edges
  have hlhs := h.renumbered_lhs h' hleft
  have hrhs := h.renumbered_rhs h' hright
  obtain ⟨hsame, hsame'⟩ := hp.unique hlhs.edgeLabel? hrhs.edgeLabel? hp'
  refine ⟨by rw [hpreserved', hsame, hpreserved], ?_⟩
  rw [hsame'] at hadded'
  have hrenumbered :
      List.Forall₂ (fun A c => ∃ e k, d.rhs.edges[k]? = some e ∧ c = e.correspondence .right k ∧
          A.Realizes (d.withDecls vars left right).lhs.nodeIds
            (d.withDecls vars left right).rhs.nodeIds e k)
        (r.addedEdges.map (·.renumber f g)) p.unpaired := by
    rw [List.forall₂_map_left_iff]
    refine hadded.imp fun A c hA => ?_
    obtain ⟨e, k, he, hc, hr⟩ := hA
    exact ⟨e, k, he, hc, hr.renumber (h.relocates_left h' hleft) (h.relocates_right h' hright)⟩
  -- an added edge is determined by its correspondence, so both lists are the same
  refine List.left_unique_forall₂' (fun A A' c hA hA' => ?_) hadded' hrenumbered
  obtain ⟨e, k, -, rfl, hr⟩ := hA
  obtain ⟨e', k', -, hc, hr'⟩ := hA'
  exact hr.unique hr' hc

theorem deletedEdges_eq : r'.deletedEdges = r.deletedEdges := by
  have hpreserved : r'.delta.preservedEdges = r.delta.preservedEdges :=
    (h.edges_eq h' hleft hright).1
  rw [Rule.deletedEdges, Rule.deletedEdges, (h.renumbered_lhs h' hleft).size_edges,
    Delta.deletesEdge_eq hpreserved]

end Rules

end Lowered

/-- Renumbered rules have the same flags, since these only count items and look at labels and
roots. -/
theorem Rule.Renumbered.flags_eq {f g : Nat → Nat} {r r' : Rule} (h : r.Renumbered f g r') :
    r'.flags = r.flags := by
  have hnodes : r'.delta.preservedNodes.all (!·.relabelled) =
      r.delta.preservedNodes.all (!·.relabelled) :=
    h.preservedNodes.all_eq.trans List.all_map
  have hdeletedNodes : r'.delta.deletedNodes.isEmpty = r.delta.deletedNodes.isEmpty :=
    h.deletedNodes.isEmpty_eq.trans List.isEmpty_map
  have haddedNodes : r'.delta.addedNodes.isEmpty = r.delta.addedNodes.isEmpty :=
    h.addedNodes.isEmpty_eq.trans List.isEmpty_map
  have haddedEdges : r'.delta.addedEdges.isEmpty = r.delta.addedEdges.isEmpty :=
    (congrArg List.isEmpty h.addedEdges).trans List.isEmpty_map
  have hedges : r'.delta.preservedEdges = r.delta.preservedEdges := h.preservedEdges
  rw [Rule.flags, Rule.flags, Flags.ofDelta, Flags.ofDelta, hnodes, hedges, hdeletedNodes,
    haddedNodes, haddedEdges, h.lhs.size_edges, Delta.deletesEdge_eq hedges, h.lhs.hasRoot_eq]

/-- **The order in which variables and nodes are declared does not matter**: a declaration that
lowers still does so when they are permuted, and to the same rule but for the numbers of its nodes,
which follow the permutations. -/
theorem exists_renumbered_of_perm {d : RuleDecl} {r : Rule} (h : d.lower = .ok r)
    {vars : List Variable} {left right : List NodeDecl} (hvars : vars.Perm d.vars)
    (hleft : left.Perm d.lhs.nodes) (hright : right.Perm d.rhs.nodes) :
    ∃ r', (d.withDecls vars left right).lower = .ok r' ∧
      ∃ f g, Carries f d.lhs.nodes left ∧ Carries g d.rhs.nodes right ∧ r.Renumbered f g r' ∧
      r'.flags = r.flags := by
  have hentries : d.SameEntries (d.withDecls vars left right) :=
    ⟨hvars, hleft, .refl _, hright, .refl _, rfl⟩
  obtain ⟨r', h'⟩ :=
    RuleDecl.exists_lower_iff.mpr ((RuleDecl.exists_lower_iff.mp ⟨r, h⟩).of_sameEntries hentries)
  obtain ⟨f, hf⟩ := exists_carries hleft
  obtain ⟨g, hg⟩ := exists_carries hright
  obtain ⟨hname, hvarsOf, hcondition⟩ := RuleDecl.kept_of_lower h
  obtain ⟨hname', hvarsOf', hcondition'⟩ := RuleDecl.kept_of_lower h'
  have hl := lowered_of_lower h
  have hl' := lowered_of_lower h'
  have hrenumbered : r.Renumbered f g r' := {
    name := hname'.trans hname.symm
    vars := by
      rw [hvarsOf, hvarsOf']
      exact hvars
    lhs := hl.renumbered_lhs hl' hf
    rhs := hl.renumbered_rhs hl' hg
    preservedNodes := hl.perm_preservedNodes hl' hf hg
    deletedNodes := hl.perm_deletedNodes hl' hf hg
    addedNodes := hl.perm_addedNodes hl' hf hg
    preservedEdges := (hl.edges_eq hl' hf hg).1
    deletedEdges := hl.deletedEdges_eq hl' hf hg
    addedEdges := (hl.edges_eq hl' hf hg).2
    condition := hcondition'.trans hcondition.symm }
  exact ⟨r', h', f, g, hf, hg, hrenumbered, hrenumbered.flags_eq⟩

/-! ### An instance -/

/-- The rule that moves an edge, with variables and a condition. -/
def moveCounted : RuleDecl :=
  { moveEdge with
    vars := [⟨"x", .integer⟩, ⟨"l", .list⟩]
    condition := some (.cmp .less (.var "x") (.degree .outgoing "b")) }

/-- All lists of the rule may be reversed. -/
theorem exists_renumbered_moveCounted :
    ∃ r, moveCounted.lower = .ok r ∧ moveCounted.vars.reverse.Perm moveCounted.vars ∧
      moveCounted.lhs.nodes.reverse.Perm moveCounted.lhs.nodes ∧
      moveCounted.rhs.nodes.reverse.Perm moveCounted.rhs.nodes ∧
      ∃ r', (moveCounted.withDecls moveCounted.vars.reverse moveCounted.lhs.nodes.reverse
        moveCounted.rhs.nodes.reverse).lower = .ok r' ∧
        ∃ f g, Carries f moveCounted.lhs.nodes moveCounted.lhs.nodes.reverse ∧
        Carries g moveCounted.rhs.nodes moveCounted.rhs.nodes.reverse ∧ r.Renumbered f g r' ∧
        r'.flags = r.flags :=
  ⟨_, rfl, List.reverse_perm _, List.reverse_perm _, List.reverse_perm _,
    exists_renumbered_of_perm rfl (List.reverse_perm _) (List.reverse_perm _) (List.reverse_perm _)⟩

end GraphTransform
