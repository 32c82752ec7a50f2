import GraphTransform.Proofs.Alike
import GraphTransform.Proofs.Identity
import Mathlib.Logic.Equiv.Basic

/-!
# Renaming edges

What identifiers the edges carry should not matter, as long as the same edges share one: if all of
them are renamed by an injective function, the rule should stay the same. It does not, because left
edges without an identifier go by names that are made up from their ends, and these are not renamed.
An edge of the right side that carries the identifier `id` finds the first free left edge that
carries it too or has the made-up name `id`, and after a renaming `f` the first that carries it too
or has the made-up name `f id` (`IsNamedPartner`).

A renamed declaration always lowers, and `lower_renameEdges_iff` says exactly when to the same rule:
when no edge finds another partner in this way. For that it suffices that the same made-up names
clash with identifiers before and after (`lower_renameEdges_of_sameClashes`).
-/

namespace GraphTransform

open Delta (takenBefore)

/-- The edge with its identifier renamed, if it carries one. -/
def EdgeDecl.rename (f : String → String) (e : EdgeDecl) : EdgeDecl := { e with id := e.id.map f }

/-- The side with the identifiers of its edges renamed. -/
def GraphDecl.renameEdges (f : String → String) (g : GraphDecl) : GraphDecl :=
  { g with edges := g.edges.map (·.rename f) }

/-- The declaration with the identifiers of the edges of both sides renamed. -/
def RuleDecl.renameEdges (f : String → String) (d : RuleDecl) : RuleDecl :=
  { d with lhs := d.lhs.renameEdges f, rhs := d.rhs.renameEdges f }

/-- The edge carries the identifier `id`, or carries none and has the made-up name `made`. -/
def EdgeDecl.GoesBy (id made : String) (e : EdgeDecl) : Prop :=
  e.id = some id ∨ e.id = none ∧ e.name = made

/-- Among the left edges `es` but for those at `taken`, the one at `l` is the first that carries the
identifier `id` or has the made-up name `made`, and it runs between the same nodes as `e`. -/
structure IsNamedPartner (es : List EdgeDecl) (taken : Set Nat) (e : EdgeDecl) (id made : String)
    (l : Nat) : Prop where
  /-- It is the first free edge that goes by the name. -/
  first : IsFirst es taken (·.GoesBy id made) l
  /-- It runs between the same nodes. -/
  sameEnds : ∃ e', es[l]? = some e' ∧ e.SameEnds e'

/-! ### Renamed declarations -/

theorem GraphDecl.edgeIds_renameEdges (f : String → String) (g : GraphDecl) :
    (g.renameEdges f).edgeIds = g.edgeIds.map f := by
  rw [edgeIds, edgeIds, renameEdges, List.filterMap_map, List.map_filterMap]
  rfl

theorem GraphDecl.alike_renameEdges (f : String → String) (g : GraphDecl) :
    g.Alike (g.renameEdges f) where
  nodes := rfl
  edges := by
    rw [renameEdges, List.forall₂_map_right_iff, List.forall₂_same]
    exact fun e _ => ⟨rfl, rfl, rfl⟩

theorem RuleDecl.alike_renameEdges (f : String → String) (d : RuleDecl) :
    d.Alike (d.renameEdges f) where
  name := rfl
  vars := rfl
  lhs := d.lhs.alike_renameEdges f
  rhs := d.rhs.alike_renameEdges f
  condition := rfl

/-! ### Partners -/

section Partners

variable {es : List EdgeDecl} {taken : Set Nat} {e : EdgeDecl} {id : String} {l : Nat}
  {f : String → String}

theorem EdgeDecl.goesBy_self_iff {e : EdgeDecl} {id : String} : e.GoesBy id id ↔ e.name = id := by
  constructor
  · rintro (hid | ⟨-, hname⟩)
    · exact name_eq_of_id hid
    · exact hname
  · intro hname
    exact (id_eq_of_name hname).imp_right fun hnone => ⟨hnone, hname⟩

/-- After an injective renaming an edge has the new name of an identifier if it carried the
identifier, or if the new name is the one made up for it. -/
theorem EdgeDecl.name_rename_eq_iff (hf : Function.Injective f) {e : EdgeDecl} :
    (e.rename f).name = f id ↔ e.GoesBy id (f id) := by
  rw [GoesBy, rename, name, name]
  cases e.id with
  | none => simp
  | some id' => simp [hf.eq_iff]

theorem isFirst_map_iff {g : EdgeDecl → EdgeDecl} {p : EdgeDecl → Prop} :
    IsFirst (es.map g) taken p l ↔ IsFirst es taken (fun e => p (g e)) l := by
  have hmap (k : Nat) (e : EdgeDecl) : (es.map g)[k]? = some e ↔
      ∃ e', es[k]? = some e' ∧ g e' = e := by
    rw [List.getElem?_map, Option.map_eq_some_iff]
  constructor
  · intro h
    obtain ⟨e, he, hp⟩ := h.holds
    obtain ⟨e', he', rfl⟩ := (hmap l e).mp he
    exact ⟨h.free, ⟨e', he', hp⟩, fun k hk hfree e he =>
      h.first k hk hfree (g e) ((hmap k _).mpr ⟨e, he, rfl⟩)⟩
  · intro h
    obtain ⟨e', he', hp⟩ := h.holds
    refine ⟨h.free, ⟨g e', (hmap l _).mpr ⟨e', he', rfl⟩, hp⟩, fun k hk hfree e he => ?_⟩
    obtain ⟨e', he', rfl⟩ := (hmap k e).mp he
    exact h.first k hk hfree e' he'

/-- Which edge is the first depends on the edges of the list alone. -/
theorem IsFirst.congr {p q : EdgeDecl → Prop} (h : IsFirst es taken p l)
    (hpq : ∀ e ∈ es, p e ↔ q e) : IsFirst es taken q l := by
  obtain ⟨e, he, hp⟩ := h.holds
  refine ⟨h.free, ⟨e, he, (hpq e (List.mem_of_getElem? he)).mp hp⟩, fun k hk hfree e he hq => ?_⟩
  exact h.first k hk hfree e he ((hpq e (List.mem_of_getElem? he)).mpr hq)

/-- Renaming moves no ends. -/
theorem exists_sameEnds_rename_iff :
    (∃ e', (es.map (·.rename f))[l]? = some e' ∧ (e.rename f).SameEnds e') ↔
      ∃ e', es[l]? = some e' ∧ e.SameEnds e' := by
  rw [List.getElem?_map]
  cases es[l]? with
  | none => simp
  | some e' => simp [EdgeDecl.SameEnds, EdgeDecl.rename]

theorem isPartner_iff_isNamedPartner (hid : e.id = some id) :
    IsPartner es taken e l ↔ IsNamedPartner es taken e id id l := by
  rw [isPartner_iff_of_id hid]
  simp only [← EdgeDecl.goesBy_self_iff]
  exact ⟨fun h => ⟨h.1, h.2⟩, fun h => ⟨h.1, h.2⟩⟩

/-- An edge with an identifier is then paired with the first free edge that carries it too or has
its new name. -/
theorem isPartner_rename_iff_isNamedPartner (hf : Function.Injective f) (hid : e.id = some id) :
    IsPartner (es.map (·.rename f)) taken (e.rename f) l ↔
      IsNamedPartner es taken e id (f id) l := by
  have hid' : (e.rename f).id = some (f id) := by rw [EdgeDecl.rename, hid, Option.map_some]
  rw [isPartner_iff_of_id hid', exists_sameEnds_rename_iff, isFirst_map_iff]
  simp only [EdgeDecl.name_rename_eq_iff hf]
  exact ⟨fun h => ⟨h.1, h.2⟩, fun h => ⟨h.1, h.2⟩⟩

/-- Names do not matter to an edge without an identifier. -/
theorem isPartner_rename_iff_of_none (hid : e.id = none) :
    IsPartner (es.map (·.rename f)) taken (e.rename f) l ↔ IsPartner es taken e l := by
  have hid' : (e.rename f).id = none := by rw [EdgeDecl.rename, hid, Option.map_none]
  rw [isPartner_iff_of_none hid, isPartner_iff_of_none hid', isFirst_map_iff]
  rfl

end Partners

/-! ### Renamed rules -/

/-- Every edge of the right side that carries an identifier finds the same partner by its old and by
its new name. -/
def RuleDecl.SamePartners (d : RuleDecl) (r : Rule) (f : String → String) : Prop :=
  ∀ k e id, d.rhs.edges[k]? = some e → e.id = some id →
    ∀ l, IsNamedPartner d.lhs.edges (takenBefore r.preservedEdges k) e id id l ↔
      IsNamedPartner d.lhs.edges (takenBefore r.preservedEdges k) e id (f id) l

section Renamed

variable {d : RuleDecl} {r : Rule} (h : d.lower = .ok r) {f : String → String}
  (hf : Function.Injective f)

include h hf

theorem nodup_edgeIds_renameEdges :
    (d.lhs.renameEdges f).edgeIds.Nodup ∧ (d.rhs.renameEdges f).edgeIds.Nodup := by
  have hl := lowered_of_lower h
  rw [GraphDecl.edgeIds_renameEdges, GraphDecl.edgeIds_renameEdges]
  exact ⟨hl.leftEdgeIds.map hf, hl.rightEdgeIds.map hf⟩

/-- A renamed declaration lowers to a rule that differs in the lists of edges at most. -/
theorem exists_lower_renameEdges :
    ∃ preservedEdges addedEdges, (d.renameEdges f).lower =
      .ok { r with delta := { r.delta with preservedEdges, addedEdges } } := by
  obtain ⟨hleft, hright⟩ := nodup_edgeIds_renameEdges h hf
  exact exists_lower_of_alike h (d.alike_renameEdges f) hleft hright

theorem lower_renameEdges_of_samePartners (hsame : d.SamePartners r f) :
    (d.renameEdges f).lower = .ok r := by
  obtain ⟨hleft, hright⟩ := nodup_edgeIds_renameEdges h hf
  refine lower_of_alike h (d.alike_renameEdges f) hleft hright fun k e e' he he' l => ?_
  change (d.rhs.edges.map _)[k]? = some e' at he'
  rw [List.getElem?_map, he, Option.map_some, Option.some.injEq] at he'
  subst he'
  cases hid : e.id with
  | none => exact (isPartner_rename_iff_of_none hid).symm
  | some id =>
    rw [isPartner_iff_isNamedPartner hid, hsame k e id he hid l]
    exact (isPartner_rename_iff_isNamedPartner hf hid).symm

/-- The pairs of the rule tell the partners in both declarations. -/
theorem samePartners_of_lower_renameEdges (h' : (d.renameEdges f).lower = .ok r) :
    d.SamePartners r f := by
  intro k e id he hid l
  have he' : (d.renameEdges f).rhs.edges[k]? = some (e.rename f) := by
    change (d.rhs.edges.map _)[k]? = _
    rw [List.getElem?_map, he, Option.map_some]
  rw [← isPartner_iff_isNamedPartner hid, ← isPartner_rename_iff_isNamedPartner hf hid,
    ← (lowered_of_lower h).exists_preservedEdge_iff he]
  exact (lowered_of_lower h').exists_preservedEdge_iff he'

end Renamed

/-- **When the identifiers of edges are only names**: a renamed declaration always lowers, and to
the same rule exactly if every edge with an identifier finds the same partner by its new name. -/
theorem lower_renameEdges_iff {d : RuleDecl} {r : Rule} (h : d.lower = .ok r) {f : String → String}
    (hf : Function.Injective f) : (∃ r', (d.renameEdges f).lower = .ok r') ∧
      ((d.renameEdges f).lower = .ok r ↔ d.SamePartners r f) := by
  obtain ⟨_, _, h'⟩ := exists_lower_renameEdges h hf
  exact ⟨⟨_, h'⟩, samePartners_of_lower_renameEdges h hf, lower_renameEdges_of_samePartners h hf⟩

/-- The edge that is moved is an instance. -/
theorem lower_renameEdges_moveEdge :
    moveEdge.lower = .ok moveEdgeRule ∧ Function.Injective (Equiv.swap "e" "f") ∧
      (∃ r', (moveEdge.renameEdges (Equiv.swap "e" "f")).lower = .ok r') ∧
      ((moveEdge.renameEdges (Equiv.swap "e" "f")).lower = .ok moveEdgeRule ↔
        moveEdge.SamePartners moveEdgeRule (Equiv.swap "e" "f")) :=
  ⟨lower_moveEdge, (Equiv.swap _ _).injective,
    lower_renameEdges_iff lower_moveEdge (Equiv.swap _ _).injective⟩

/-- A renaming after which the same made-up names on the left are identifiers on the right does not
change the rule. -/
theorem lower_renameEdges_of_sameClashes {d : RuleDecl} {r : Rule} (h : d.lower = .ok r)
    {f : String → String} (hf : Function.Injective f)
    (hclash : ∀ e' ∈ d.lhs.edges, e'.id = none →
      ∀ id ∈ d.rhs.edgeIds, (e'.name = f id ↔ e'.name = id)) : (d.renameEdges f).lower = .ok r := by
  refine lower_renameEdges_of_samePartners h hf fun k e id he hid l => ?_
  have hmem : id ∈ d.rhs.edgeIds := List.mem_filterMap.mpr ⟨e, List.mem_of_getElem? he, hid⟩
  have hgoes : ∀ e' ∈ d.lhs.edges, e'.GoesBy id (f id) ↔ e'.GoesBy id id := fun e' he' =>
    or_congr_right (and_congr_right fun hnone => hclash e' he' hnone id hmem)
  constructor
  · exact fun hp => ⟨hp.first.congr fun e' he' => (hgoes e' he').symm, hp.sameEnds⟩
  · exact fun hp => ⟨hp.first.congr hgoes, hp.sameEnds⟩

/-! ### A name that is taken -/

/-- `nameClash` with another identifier, which is not the made-up name of the other edge. -/
def namesApart : RuleDecl := nameClash.renameEdges (Equiv.swap "e" "a->b")

/-- What `namesApart` lowers to. -/
def namesApartRule : Rule :=
  { nameClashRule with
    delta := { nameClashRule.delta with preservedEdges := [⟨1, 0, false⟩], addedEdges := [] } }

theorem lower_namesApart : namesApart.lower = .ok namesApartRule := rfl

/-- An edge is preserved as long as its identifier is not the made-up name of another edge. -/
theorem not_lower_renameEdges_namesApart :
    namesApart.lower = .ok namesApartRule ∧ Function.Injective (Equiv.swap "e" "a->b") ∧
      (namesApart.renameEdges (Equiv.swap "e" "a->b")).lower ≠ .ok namesApartRule := by
  have hclash : (namesApart.renameEdges (Equiv.swap "e" "a->b")).lower = .ok nameClashRule := rfl
  refine ⟨lower_namesApart, (Equiv.swap _ _).injective, fun h => ?_⟩
  have hpreserved : nameClashRule.preservedEdges = namesApartRule.preservedEdges :=
    congrArg Rule.preservedEdges (Except.ok.inj (hclash.symm.trans h))
  cases hpreserved

end GraphTransform
