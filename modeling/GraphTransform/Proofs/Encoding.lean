import GraphTransform.Proofs.Printing
import GraphTransform.Proofs.Schema
import Mathlib.Data.List.Nodup

/-!
# Decoding undoes encoding

Every value of the format is read back from its JSON, whatever strings and integers stand in it, if
as many brackets may be opened as the JSON has levels. For a structure it is enough that its fields
are read back, as the schema says. With the printed text, which is parsed as the JSON it was printed
for, this gives that a list of rules is decoded from its canonical text.
-/

namespace GraphTransform

/-! ### Levels of brackets -/

namespace Json

mutual

/-- The number of levels of brackets in a value. -/
def depth : Json → Nat
  | .scalar _ => 0
  | .array items => itemsDepth items + 1
  | .object members => membersDepth members + 1

/-- The number of levels of brackets in the items of an array. -/
def itemsDepth : List Json → Nat
  | [] => 0
  | j :: items => max j.depth (itemsDepth items)

/-- The number of levels of brackets in the members of an object. -/
def membersDepth : List (Option String × Json) → Nat
  | [] => 0
  | (_, j) :: members => max j.depth (membersDepth members)

end

theorem itemsDepth_le_iff {items : List Json} {n : Nat} :
    itemsDepth items ≤ n ↔ ∀ j ∈ items, j.depth ≤ n := by
  induction items with
  | nil => simp [itemsDepth]
  | cons j items ih => rw [itemsDepth, Nat.max_le, ih, List.forall_mem_cons]

theorem membersDepth_le_iff {members : List (Option String × Json)} {n : Nat} :
    membersDepth members ≤ n ↔ ∀ m ∈ members, m.2.depth ≤ n := by
  induction members with
  | nil => simp [membersDepth]
  | cons m members ih => rw [membersDepth, Nat.max_le, ih, List.forall_mem_cons]

theorem depth_array_le_iff {items : List Json} {n : Nat} :
    (Json.array items).depth ≤ n ↔ ∃ m, n = m + 1 ∧ ∀ j ∈ items, j.depth ≤ m := by
  rw [depth]
  simp only [← itemsDepth_le_iff]
  cases n <;> simp

theorem record_eq (members : List (String × Json)) :
    Json.record members = .object (members.map fun p => (some p.1, p.2)) :=
  rfl

theorem depth_record_le_iff {members : List (String × Json)} {n : Nat} :
    (Json.record members).depth ≤ n ↔ ∃ m, n = m + 1 ∧ ∀ p ∈ members, p.2.depth ≤ m := by
  rw [record_eq, depth]
  have hmembers (m : Nat) : membersDepth (members.map fun p => (some p.1, p.2)) ≤ m ↔
      ∀ p ∈ members, p.2.depth ≤ m := by
    rw [membersDepth_le_iff, List.forall_mem_map]
  simp only [← hmembers]
  cases n <;> simp

theorem depth_variant_le_iff {tag : String} {j : Json} {n : Nat} :
    (Json.variant tag j).depth ≤ n ↔ ∃ m, n = m + 1 ∧ j.depth ≤ m := by
  simp [variant, depth_record_le_iff]

theorem depth_variant_pair_le_iff {tag : String} {j k : Json} {n : Nat} :
    (Json.variant tag (.array [j, k])).depth ≤ n ↔ ∃ m, n = m + 2 ∧ j.depth ≤ m ∧ k.depth ≤ m := by
  simp only [depth_variant_le_iff, depth_array_le_iff, List.forall_mem_cons]
  constructor
  · rintro ⟨_, rfl, m, rfl, hj, hk, -⟩
    exact ⟨m, rfl, hj, hk⟩
  · rintro ⟨m, rfl, hj, hk⟩
    exact ⟨m + 1, rfl, m, rfl, hj, hk, List.forall_mem_nil _⟩

end Json

/-! ### Readers -/

/-- Values are read back from their JSON. -/
def Reader.Undoes {α : Type} (read : Reader α) (toJson : α → Json) (n : Nat) : Prop :=
  ∀ a, (toJson a).depth ≤ n → read n (toJson a) = some a

theorem mapM_map_eq_some {α β : Type} {read : β → Option α} {toJson : α → β} {as : List α}
    (h : ∀ a ∈ as, read (toJson a) = some a) : (as.map toJson).mapM read = some as := by
  induction as with
  | nil => rfl
  | cons a as ih =>
    obtain ⟨ha, has⟩ := List.forall_mem_cons.mp h
    rw [List.map_cons, List.mapM_cons, ha, ih has]
    rfl

namespace Reader.Undoes

variable {α : Type} {read : Reader α} {toJson : α → Json} {n : Nat}

theorem list (h : ∀ m < n, Reader.Undoes read toJson m) :
    Reader.Undoes (Reader.list read) (Json.list toJson) n := by
  intro as hdepth
  obtain ⟨m, rfl, has⟩ := Json.depth_array_le_iff.mp hdepth
  exact mapM_map_eq_some fun a ha => h m (Nat.lt_succ_self m) a (has _ (List.mem_map_of_mem ha))

theorem pair (h : Reader.Undoes read toJson n) {a b : α} (ha : (toJson a).depth ≤ n)
    (hb : (toJson b).depth ≤ n) :
    Reader.pair read (n + 1) (.array [toJson a, toJson b]) = some (a, b) := by
  rw [Reader.pair, h a ha, h b hb]
  rfl

theorem optional (h : Reader.Undoes read toJson n) (hnull : ∀ a, toJson a ≠ .null) :
    Reader.Undoes (Reader.optional read) (Json.optional toJson) n := by
  rintro (_ | a) ha
  · rfl
  · rw [Json.optional, Reader.optional, h a ha]
    · rfl
    · exact hnull a

end Reader.Undoes

theorem Kind.toJson_ne_null {α : Type} (k : Kind α) (a : α) : k.toJson a ≠ .null := by
  cases k with
  | text | bool | mark | type => simp [toJson, Json.str, Json.bool, Json.null]
  | atom => cases a <;> simp [toJson, Atom.toJson, Json.variant, Json.record, Json.null]
  | condition => cases a <;> simp [toJson, Condition.toJson, Json.variant, Json.record, Json.null]
  | record r => simp [toJson, Record.toJson_eq, Json.record, Json.null]

/-- An atom is read back from its JSON. -/
theorem Atom.undoes_read (n : Nat) : Reader.Undoes Atom.read Atom.toJson n := by
  intro a h
  induction a generalizing n with
  | int i =>
    obtain ⟨m, rfl, -⟩ := Json.depth_variant_le_iff.mp h
    rw [toJson, read_int, Json.int, Reader.int, toInt64?_toInt]
    rfl
  | str s =>
    obtain ⟨m, rfl, -⟩ := Json.depth_variant_le_iff.mp h
    exact read_str m (.str s)
  | var x =>
    obtain ⟨m, rfl, -⟩ := Json.depth_variant_le_iff.mp h
    exact read_var m (.str x)
  | degree d x =>
    obtain ⟨m, rfl, -⟩ := Json.depth_variant_le_iff.mp h
    exact read_degree m (.str x) d
  | length x =>
    obtain ⟨m, rfl, -⟩ := Json.depth_variant_le_iff.mp h
    exact read_length m (.str x)
  | neg a ih =>
    obtain ⟨m, rfl, ha⟩ := Json.depth_variant_le_iff.mp h
    rw [toJson, read_neg, ih m ha]
    rfl
  | arith op a b iha ihb =>
    obtain ⟨m, rfl, ha, hb⟩ := Json.depth_variant_pair_le_iff.mp h
    rw [toJson, read_arith, iha m ha, ihb m hb]
    rfl
  | concat a b iha ihb =>
    obtain ⟨m, rfl, ha, hb⟩ := Json.depth_variant_pair_le_iff.mp h
    rw [toJson, read_concat, iha m ha, ihb m hb]
    rfl

/-- The members of an encoded structure are its fields. -/
theorem Record.exists_fields_toJson {α : Type} (r : Record α) (a : α) :
    ∃ field, Reader.fields r.names r.least (r.toJson a) = some field ∧
      ∀ f ∈ r.fields, field f.name = some (f.form.toJson (f.get a)) := by
  have hmembers : Reader.wellNamed r.names
      ((r.fields.map fun f => (f.name, f.form.toJson (f.get a))).map fun p => (some p.1, p.2)) =
        true := by
    refine Reader.wellNamed_iff.mpr ⟨by simp, fun name _ => ?_⟩
    have hcount := List.nodup_iff_count_le_one.mp r.nodup_names name
    simpa [Record.names, List.count, List.countP_map, Function.comp_def, beq_eq_decide] using hcount
  rw [r.toJson_eq, Json.record_eq]
  refine ⟨_, Reader.fields_object_eq_some_iff.mpr ⟨hmembers, rfl⟩, fun f hf => ?_⟩
  refine (Reader.member?_eq_some_iff hmembers (List.mem_map_of_mem hf)).mpr ?_
  simp only [List.map_map, List.mem_map]
  exact ⟨f, hf, rfl⟩

/-- A structure is read back from its JSON if its fields are. -/
theorem Record.undoes_read {α : Type} (r : Record α) {n : Nat}
    (h : ∀ m < n, ∀ f ∈ r.fields, Reader.Undoes f.form.read f.form.toJson m) :
    Reader.Undoes r.read r.toJson n := by
  intro a hdepth
  rw [r.toJson_eq, Json.depth_record_le_iff] at hdepth
  obtain ⟨m, rfl, ha⟩ := hdepth
  obtain ⟨field, hfield, hfields⟩ := r.exists_fields_toJson a
  refine r.read_eq_some_iff.mpr ⟨m, field, rfl, hfield, fun f hf => ?_⟩
  rw [hfields f hf, Field.read]
  exact h m (Nat.lt_succ_self m) f hf _ (ha (f.name, _) (List.mem_map_of_mem hf))

/-- A condition is read back from its JSON if its parts are. -/
theorem Condition.undoes_read {n : Nat}
    (hedge : ∀ m < n, Reader.Undoes Record.edgeTest.read Record.edgeTest.toJson m)
    (ih : ∀ m < n, Reader.Undoes Condition.read Condition.toJson m) :
    Reader.Undoes Condition.read Condition.toJson n := by
  intro c h
  cases c with
  | is test x =>
    obtain ⟨m, rfl, -⟩ := Json.depth_variant_le_iff.mp h
    exact read_is m (.str x) test
  | edge s t l =>
    obtain ⟨m, rfl, hparts⟩ := Json.depth_variant_le_iff.mp h
    rw [toJson, read_edge, readEdge_eq]
    exact congrArg _ (hedge m (Nat.lt_succ_self m) (s, t, l) hparts)
  | eq l r =>
    obtain ⟨m, rfl, hl, hr⟩ := Json.depth_variant_pair_le_iff.mp h
    rw [toJson, read_eq, (Reader.Undoes.list fun m _ => Atom.undoes_read m).pair hl hr]
    rfl
  | neq l r =>
    obtain ⟨m, rfl, hl, hr⟩ := Json.depth_variant_pair_le_iff.mp h
    rw [toJson, read_neq, (Reader.Undoes.list fun m _ => Atom.undoes_read m).pair hl hr]
    rfl
  | cmp op l r =>
    obtain ⟨_, rfl, hparts⟩ := Json.depth_variant_le_iff.mp h
    obtain ⟨m, rfl, hall⟩ := Json.depth_array_le_iff.mp hparts
    have hl := Atom.undoes_read m l (hall _ (by simp))
    have hr := Atom.undoes_read m r (hall _ (by simp))
    have hop : Reader.word RelOp.ofTag? m (.str op.tag) = some op := RelOp.ofTag?_tag op
    rw [toJson, read_cmp, readCmp, hop, hl, hr]
    rfl
  | not c =>
    obtain ⟨m, rfl, hc⟩ := Json.depth_variant_le_iff.mp h
    rw [toJson, read_not, ih m (by omega) c hc]
    rfl
  | and c d =>
    obtain ⟨m, rfl, hc, hd⟩ := Json.depth_variant_pair_le_iff.mp h
    rw [toJson, read_and, ih m (by omega) c hc, ih m (by omega) d hd]
    rfl
  | or c d =>
    obtain ⟨m, rfl, hc, hd⟩ := Json.depth_variant_pair_le_iff.mp h
    rw [toJson, read_or, ih m (by omega) c hc, ih m (by omega) d hd]
    rfl

/-- A value is read back from its JSON if those with fewer levels of brackets are. -/
theorem Kind.undoes_read {α : Type} (k : Kind α) {n : Nat}
    (ih : ∀ m < n, ∀ {β : Type} (F : Form β), Reader.Undoes F.read F.toJson m) :
    Reader.Undoes k.read k.toJson n := by
  cases k with
  | text => exact fun _ _ => rfl
  | bool => exact fun _ _ => rfl
  | mark => exact fun m _ => Mark.ofTag?_tag m
  | type => exact fun t _ => ValueType.ofTag?_tag t
  | atom => exact Atom.undoes_read n
  | condition =>
    exact Condition.undoes_read (fun m hm => ih m hm (.one (.record .edgeTest)))
      (fun m hm => ih m hm (.one .condition))
  | record r => exact r.undoes_read fun m hm f _ => ih m hm f.form

/-- Everything is read back from its JSON. -/
theorem Form.undoes_read (n : Nat) {α : Type} (F : Form α) : Reader.Undoes F.read F.toJson n := by
  -- by induction on the levels, since the parts of a value have fewer, but a value that may be
  -- missing has as many
  induction n using Nat.strongRecOn generalizing α with
  | ind n ih =>
    cases F with
    | one k => exact k.undoes_read fun m hm _ => ih m hm
    | list k => exact .list fun m hm => ih m hm (.one k)
    | optional k => exact .optional (k.undoes_read fun m hm _ => ih m hm) k.toJson_ne_null

namespace RuleDecl

/-- A list of rules is decoded from each text of its canonical JSON, if that has no more levels of
brackets than may be open. -/
theorem decode?_of_writes {ds : List RuleDecl} {text : String}
    (h : (Json.list toJson ds).depth ≤ maxDepth) (htext : (Json.list toJson ds).Writes text) :
    decode? text = some ds := by
  rw [decode?, Json.parse?_eq_some_iff.mpr htext]
  exact Form.undoes_read maxDepth (.list (.record .rule)) ds h

/-- **Decoding undoes encoding**, for all rules whose canonical text nests at most 127 levels
deep. -/
theorem decode?_encode (ds : List RuleDecl) (h : (Json.list toJson ds).depth ≤ 127) :
    decode? (encode ds) = some ds :=
  decode?_of_writes h (Json.writes_text _)

/-- A rule with escapes, the least integer and a condition in several levels. -/
def manyLevels : RuleDecl where
  name := "\"\\\n\x01é😀"
  vars := [⟨"x", .atom⟩]
  lhs :=
    ⟨[⟨"", true,
        ⟨.grey, [.arith .div (.int (-9223372036854775808)) (.neg (.degree .incoming ""))]⟩⟩],
      [⟨none, "", "", {}⟩]⟩
  rhs := {}
  condition :=
    some (.or (.not (.edge "" "" (some {}))) (.eq [.str "\t"] [.concat (.var "x") (.str "")]))

theorem decode?_encode_manyLevels : (Json.list toJson [manyLevels]).depth ≤ 127 ∧
    decode? (encode [manyLevels]) = some [manyLevels] := by
  have h : (Json.list toJson [manyLevels]).depth ≤ 127 := by decide
  exact ⟨h, decode?_encode [manyLevels] h⟩

end RuleDecl

end GraphTransform
