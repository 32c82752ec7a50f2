import GraphTransform.Proofs.Encoding
import GraphTransform.Proofs.Levels
import Mathlib.Logic.Relation

/-!
# Ways to write the same rules

The same rules may be written in many ways: white space, the order of the members of a structure and
members with unknown names do not matter, a field may be left out where it holds what it stands for
if absent, and a structure may be an array of its fields. Each such change at one place of a text,
and hence any number of them, leaves what the text is decoded as.
-/

namespace GraphTransform

/-! ### Changes at one place -/

/-- A change of the JSON of something, at one place, that does not change what it stands for.

The names of members are Unicode text, as the format wants it of structures: no structure is read
that has a member with another name (`Record.read_object_of_mem_none`). The values of members that
are added may be anything. -/
inductive Rewrite : {α : Type} → Form α → Json → Json → Prop where
  /-- The members of a structure in another order. -/
  | permute {α : Type} {r : Record α} {members members' : List (Option String × Json)}
      (h : members.Perm members') : Rewrite (.one (.record r)) (.object members) (.object members')
  /-- A further member with an unknown name. -/
  | add {α : Type} {r : Record α} {before after : List (Option String × Json)}
      {name : String} {j : Json} (hname : name ∉ r.names) :
      Rewrite (.one (.record r)) (.object (before ++ after))
        (.object (before ++ (some name, j) :: after))
  /-- Without a member that holds what its field stands for if it is absent. -/
  | drop {α : Type} {r : Record α} {before after : List (Option String × Json)} {f : Field α}
      {j : Json} {b : f.β} {n : Nat} (hf : f ∈ r.fields) (habsent : f.absent = some b)
      (hj : f.form.read n j = some b) :
      Rewrite (.one (.record r)) (.object (before ++ (some f.name, j) :: after))
        (.object (before ++ after))
  /-- The values of all fields in their order, instead of an object that has them. -/
  | listed {α : Type} {r : Record α} {members : List (Option String × Json)} {items : List Json}
      (h : List.Forall₂ (fun f j => (some f.name, j) ∈ members) r.fields items) :
      Rewrite (.one (.record r)) (.object members) (.array items)
  /-- A change in the value of a field of an object. -/
  | member {α : Type} {r : Record α} {before after : List (Option String × Json)}
      {f : Field α} {j j' : Json} (hf : f ∈ r.fields) (h : Rewrite f.form j j') :
      Rewrite (.one (.record r)) (.object (before ++ (some f.name, j) :: after))
        (.object (before ++ (some f.name, j') :: after))
  /-- A change in the value of a field of an array. -/
  | field {α : Type} {r : Record α} {before after : List Json} {f : Field α} {j j' : Json}
      (hf : r.fields[before.length]? = some f) (h : Rewrite f.form j j') :
      Rewrite (.one (.record r)) (.array (before ++ j :: after)) (.array (before ++ j' :: after))
  /-- A change in an item of a list. -/
  | item {α : Type} {k : Kind α} {before after : List Json} {j j' : Json}
      (h : Rewrite (.one k) j j') :
      Rewrite (.list k) (.array (before ++ j :: after)) (.array (before ++ j' :: after))
  /-- A change in a value that is not missing. -/
  | present {α : Type} {k : Kind α} {j j' : Json} (h : Rewrite (.one k) j j') :
      Rewrite (.optional k) j j'
  /-- A change in a condition on an edge. -/
  | edge {j j' : Json} (h : Rewrite (.one (.record .edgeTest)) j j') :
      Rewrite (.one .condition) (.variant "edge" j) (.variant "edge" j')
  /-- A change below a negation. -/
  | not {j j' : Json} (h : Rewrite (.one .condition) j j') :
      Rewrite (.one .condition) (.variant "not" j) (.variant "not" j')
  /-- A change in the first part of a conjunction or disjunction. -/
  | left {tag : String} {j j' k : Json} (htag : tag = "and" ∨ tag = "or")
      (h : Rewrite (.one .condition) j j') :
      Rewrite (.one .condition) (.variant tag (.array [j, k])) (.variant tag (.array [j', k]))
  /-- A change in the second part of a conjunction or disjunction. -/
  | right {tag : String} {j k k' : Json} (htag : tag = "and" ∨ tag = "or")
      (h : Rewrite (.one .condition) k k') :
      Rewrite (.one .condition) (.variant tag (.array [j, k])) (.variant tag (.array [j, k']))

/-- A structure with a member whose name is no Unicode text is not read. So no such member may be
added. -/
theorem Record.read_object_of_mem_none {α : Type} (r : Record α)
    {members : List (Option String × Json)} {j : Json} (h : (none, j) ∈ members) (n : Nat) :
    r.read n (.object members) = none := by
  refine Option.eq_none_iff_forall_ne_some.mpr fun a ha => ?_
  obtain ⟨m, field, -, hfields, -⟩ := r.read_eq_some_iff.mp ha
  obtain ⟨hwell, -⟩ := Reader.fields_object_eq_some_iff.mp hfields
  simpa using (Reader.wellNamed_iff.mp hwell).1 _ h

/-- Half of a surrogate pair may be escaped in the value of a further member, but not in its name:
the name stands for no text then, and the rules are not decoded. -/
example :
    RuleDecl.decode?
      "[\x7b\"name\":\"r\",\"lhs\":\x7b\x7d,\"rhs\":\x7b\x7d,\"a\":\"\\ud800\"\x7d]" =
        some [{ name := "r", lhs := {}, rhs := {} }] ∧
    RuleDecl.decode?
      "[\x7b\"name\":\"r\",\"lhs\":\x7b\x7d,\"rhs\":\x7b\x7d,\"\\ud800\":\"a\"\x7d]" =
        none := by
  decide +kernel

/-- A change of a text of rules. -/
inductive TextRewrite : String → String → Prop where
  /-- Another text of the same value: the same tokens, however each is written, with other white
  space before, between and after them. -/
  | layout {j : Json} {text text' : String} (ht : j.Writes text) (ht' : j.Writes text') :
      TextRewrite text text'
  /-- A text of a value that is changed at one place. -/
  | value {j j' : Json} {text text' : String} (h : Rewrite (.list (.record .rule)) j j')
      (ht : j.Writes text) (ht' : j'.Writes text') : TextRewrite text text'

/-- White space may be added between the tokens of a text, and removed. -/
theorem textRewrite_blanks {j : Json} {ts us : List Token} {cs ds ws : List Char}
    (hj : j.toTokens = ts ++ us) (hcs : Token.Laid ts cs) (hds : Token.Laid us ds)
    (hws : ∀ c ∈ ws, Token.isBlank c = true) :
    TextRewrite (String.ofList (cs ++ ds)) (String.ofList (cs ++ (ws ++ ds))) ∧
      TextRewrite (String.ofList (cs ++ (ws ++ ds))) (String.ofList (cs ++ ds)) := by
  have hwrites (vs : List Char) (hvs : ∀ c ∈ vs, Token.isBlank c = true) :
      j.Writes (String.ofList (cs ++ (vs ++ ds))) := by
    rw [Json.Writes, hj, String.toList_ofList]
    exact hcs.append hvs hds
  have hnone : j.Writes (String.ofList (cs ++ ds)) := hwrites [] (List.forall_mem_nil _)
  exact ⟨.layout hnone (hwrites ws hws), .layout (hwrites ws hws) hnone⟩

/-! ### Structures -/

namespace Reader

/-- Two objects with the same members of a known name have the same field. -/
theorem member?_congr {names : List String} {members members' : List (Option String × Json)}
    {name : String} (h : wellNamed names members = true) (h' : wellNamed names members' = true)
    (hname : name ∈ names) (hmem : ∀ j, (some name, j) ∈ members ↔ (some name, j) ∈ members') :
    member? members name = member? members' name := by
  refine Option.ext fun j => ?_
  rw [member?_eq_some_iff h hname, member?_eq_some_iff h' hname, hmem j]

variable (names : List String)

/-- Whether members are well named depends on how often each name comes. -/
theorem wellNamed_perm {members members' : List (Option String × Json)}
    (h : (members.map (·.1)).Perm (members'.map (·.1))) :
    wellNamed names members = wellNamed names members' := by
  have hsome : (∀ m ∈ members, m.1.isSome = true) ↔ ∀ m ∈ members', m.1.isSome = true := by
    have hmem (p : Option String → Prop) (ms : List (Option String × Json)) :
        (∀ m ∈ ms, p m.1) ↔ ∀ key ∈ ms.map (·.1), p key := by simp
    rw [hmem (·.isSome = true) members, hmem (·.isSome = true) members']
    exact forall_congr' fun key => by rw [h.mem_iff]
  have hcount (name : String) :
      members.countP (·.1 = some name) = members'.countP (·.1 = some name) := by
    have := h.countP_eq (fun key => key = some name)
    simpa [List.countP_map, Function.comp_def] using this
  rw [Bool.eq_iff_iff, wellNamed_iff, wellNamed_iff, hsome]
  simp only [hcount]

theorem wellNamed_cons_iff {before after : List (Option String × Json)} {m : Option String × Json} :
    wellNamed names (before ++ m :: after) = true ↔
      wellNamed names (m :: (before ++ after)) = true := by
  rw [wellNamed_perm names (List.perm_middle.map _)]

variable {names}

/-- A further member has a name that is text and comes no more often than allowed. -/
theorem wellNamed_add_iff {before after : List (Option String × Json)} {name : String} {j : Json} :
    wellNamed names (before ++ (some name, j) :: after) = true ↔
      wellNamed names (before ++ after) = true ∧
      (name ∈ names → ∀ k, (some name, k) ∉ before ++ after) := by
  rw [wellNamed_cons_iff, wellNamed_iff, wellNamed_iff]
  have hcons (key : String) : ((some name, j) :: (before ++ after)).countP (·.1 = some key) =
      (before ++ after).countP (·.1 = some key) + if name = key then 1 else 0 := by
    simp [List.countP_cons]
  have hzero (key : String) : (before ++ after).countP (·.1 = some key) = 0 ↔
      ∀ k, (some key, k) ∉ before ++ after := by
    rw [List.countP_eq_zero]
    constructor
    · exact fun h k hk => h _ hk (by simp)
    · rintro h ⟨key', k⟩ hk hkey
      obtain rfl : key' = some key := by simpa using hkey
      exact h k hk
  simp only [hcons, List.forall_mem_cons, Option.isSome_some, true_and]
  constructor
  · rintro ⟨hsome, hcount⟩
    refine ⟨⟨hsome, fun key hkey => ?_⟩, fun hname => (hzero name).mp ?_⟩
    · have := hcount key hkey
      omega
    · have := hcount name hname
      rw [if_pos rfl] at this
      omega
  · rintro ⟨⟨hsome, hcount⟩, hnone⟩
    refine ⟨hsome, fun key hkey => ?_⟩
    split
    · next h =>
      subst h
      rw [(hzero name).mpr (hnone hkey)]
    · exact hcount key hkey

theorem fields_array_eq_some_iff {least : Nat} {items : List Json} {field : String → Option Json} :
    fields names least (.array items) = some field ↔
      (least ≤ items.length ∧ items.length ≤ names.length) ∧
      field = fun name => items[names.idxOf name]? := by
  rw [fields]
  split
  · next h => simp [h, eq_comm]
  · next h => simp [h]

end Reader

namespace Record

variable {α : Type} {r : Record α} {n : Nat} {a : α}

/-- A structure is read as before if its fields are. -/
theorem read_of_fields {j j' : Json} (h : r.read n j = some a)
    (hfields : ∀ field, Reader.fields r.names r.least j = some field →
      ∃ field', Reader.fields r.names r.least j' = some field' ∧
      ∀ f ∈ r.fields, ∀ m < n, ∀ b, f.read m (field f.name) = some b →
      f.read m (field' f.name) = some b) : r.read n j' = some a := by
  obtain ⟨m, field, rfl, hfield, hread⟩ := r.read_eq_some_iff.mp h
  obtain ⟨field', hfield', hread'⟩ := hfields field hfield
  exact r.read_eq_some_iff.mpr ⟨m, field', rfl, hfield', fun f hf =>
    hread' f hf m (Nat.lt_succ_self m) _ (hread f hf)⟩

/-- An object is read as before if it is well named and the member of each field is read as
before. -/
theorem read_of_members {members members' : List (Option String × Json)}
    (h : r.read n (.object members) = some a)
    (hnames : Reader.wellNamed r.names members = true → Reader.wellNamed r.names members' = true)
    (hread : Reader.wellNamed r.names members = true →
      ∀ f ∈ r.fields, ∀ m < n, ∀ b, f.read m (Reader.member? members f.name) = some b →
      f.read m (Reader.member? members' f.name) = some b) :
    r.read n (.object members') = some a := by
  refine read_of_fields h fun field hfield => ?_
  obtain ⟨hwell, rfl⟩ := Reader.fields_object_eq_some_iff.mp hfield
  exact ⟨_, Reader.fields_object_eq_some_iff.mpr ⟨hnames hwell, rfl⟩, hread hwell⟩

/-- Fields of one name are one. -/
theorem eq_of_name_eq {f g : Field α} (hf : f ∈ r.fields) (hg : g ∈ r.fields)
    (h : f.name = g.name) : f = g :=
  List.inj_on_of_nodup_map r.nodup_names hf hg h

theorem name_mem_names {f : Field α} (hf : f ∈ r.fields) : f.name ∈ r.names :=
  List.mem_map_of_mem hf

/-- The order of the members does not matter. -/
theorem read_permute {members members' : List (Option String × Json)}
    (hperm : members.Perm members') (h : r.read n (.object members) = some a) :
    r.read n (.object members') = some a := by
  have hnames := Reader.wellNamed_perm r.names (hperm.map (·.1))
  refine read_of_members h (hnames ▸ id) fun hwell f hf m _ b hb => ?_
  rwa [← Reader.member?_congr hwell (hnames ▸ hwell) (name_mem_names hf) fun j => hperm.mem_iff]

/-- A member with an unknown name does not matter. -/
theorem read_add {before after : List (Option String × Json)} {name : String} {j : Json}
    (hname : name ∉ r.names) (h : r.read n (.object (before ++ after)) = some a) :
    r.read n (.object (before ++ (some name, j) :: after)) = some a := by
  have hnames (hwell : Reader.wellNamed r.names (before ++ after) = true) :
      Reader.wellNamed r.names (before ++ (some name, j) :: after) = true :=
    Reader.wellNamed_add_iff.mpr ⟨hwell, fun hmem => absurd hmem hname⟩
  refine read_of_members h hnames fun hwell f hf m _ b hb => ?_
  have hne : f.name ≠ name := fun h => hname (h ▸ name_mem_names hf)
  rwa [← Reader.member?_congr hwell (hnames hwell) (name_mem_names hf) fun k => by simp [hne]]

/-- A member does not matter that holds what its field stands for if it is absent. -/
theorem read_drop {before after : List (Option String × Json)} {f : Field α} {j : Json} {b : f.β}
    {m : Nat} (hf : f ∈ r.fields) (habsent : f.absent = some b) (hj : f.form.read m j = some b)
    (h : r.read n (.object (before ++ (some f.name, j) :: after)) = some a) :
    r.read n (.object (before ++ after)) = some a := by
  refine read_of_members h (fun hwell =>
    (Reader.wellNamed_add_iff.mp hwell).1) fun hwell g hg m' _ c hc => ?_
  obtain ⟨hwell', hnone⟩ := Reader.wellNamed_add_iff.mp hwell
  by_cases hname : g.name = f.name
  -- the member that was read is the one that is dropped, and nothing else has its name
  · obtain rfl := eq_of_name_eq hg hf hname
    have hmem := (Reader.member?_eq_some_iff hwell (name_mem_names hg)).mpr
      (List.mem_append_right before (List.mem_cons_self (a := (some g.name, j)) (l := after)))
    have hmem' :=
      (Reader.member?_eq_none_iff hwell' (name_mem_names hg)).mpr (hnone (name_mem_names hg))
    rw [hmem] at hc
    rw [hmem', Field.read, habsent, g.form.read_unique hj hc]
  · rwa [Reader.member?_congr hwell' hwell (name_mem_names hg) fun k => by simp [hname]]

/-- The value of a member matters as what it is read. -/
theorem read_member {before after : List (Option String × Json)} {f : Field α} {j j' : Json}
    (hf : f ∈ r.fields) (hread : ∀ m b, f.form.read m j = some b → f.form.read m j' = some b)
    (h : r.read n (.object (before ++ (some f.name, j) :: after)) = some a) :
    r.read n (.object (before ++ (some f.name, j') :: after)) = some a := by
  have hnames : Reader.wellNamed r.names (before ++ (some f.name, j) :: after) =
      Reader.wellNamed r.names (before ++ (some f.name, j') :: after) :=
    Reader.wellNamed_perm r.names (by simp)
  refine read_of_members h (hnames ▸ id) fun hwell g hg m _ c hc => ?_
  have hwell' := hnames ▸ hwell
  by_cases hname : g.name = f.name
  · obtain rfl := eq_of_name_eq hg hf hname
    have hmem (k : Json) : (some g.name, k) ∈ before ++ (some g.name, k) :: after :=
      List.mem_append_right before (List.mem_cons_self ..)
    rw [(Reader.member?_eq_some_iff hwell (name_mem_names hg)).mpr (hmem j)] at hc
    rw [(Reader.member?_eq_some_iff hwell' (name_mem_names hg)).mpr (hmem j')]
    exact hread m c hc
  · rwa [← Reader.member?_congr hwell hwell' (name_mem_names hg) fun k => by simp [hname]]

/-- The fields of an array are its items. -/
theorem field_of_getElem? {items : List Json} {f : Field α} {i : Nat} (hf : r.fields[i]? = some f) :
    items[r.names.idxOf f.name]? = items[i]? := by
  obtain ⟨hi, rfl⟩ := List.getElem?_eq_some_iff.mp hf
  have hi' : i < r.names.length := by simpa [names] using hi
  rw [show r.fields[i].name = r.names[i] by simp [names], r.nodup_names.idxOf_getElem i hi']

/-- An array of the values of all fields is read as an object that has them. -/
theorem read_listed {members : List (Option String × Json)} {items : List Json}
    (hitems : List.Forall₂ (fun f j => (some f.name, j) ∈ members) r.fields items)
    (h : r.read n (.object members) = some a) : r.read n (.array items) = some a := by
  obtain ⟨hlen, hget⟩ := List.forall₂_iff_get.mp hitems
  refine read_of_fields h fun field hfield => ?_
  obtain ⟨hwell, rfl⟩ := Reader.fields_object_eq_some_iff.mp hfield
  refine ⟨_, Reader.fields_array_eq_some_iff.mpr ⟨?_, rfl⟩, fun f hf m _ b hb => ?_⟩
  · rw [← hlen, names, List.length_map]
    exact ⟨r.least_le, le_rfl⟩
  · obtain ⟨i, hi, rfl⟩ := List.getElem_of_mem hf
    have hmem := hget i hi (hlen ▸ hi)
    rw [(Reader.member?_eq_some_iff hwell (name_mem_names hf)).mpr hmem] at hb
    rwa [field_of_getElem? (List.getElem?_eq_getElem hi), List.getElem?_eq_getElem (hlen ▸ hi)]

/-- An item of an array matters as what it is read. -/
theorem read_field {before after : List Json} {f : Field α} {j j' : Json}
    (hf : r.fields[before.length]? = some f)
    (hread : ∀ m b, f.form.read m j = some b → f.form.read m j' = some b)
    (h : r.read n (.array (before ++ j :: after)) = some a) :
    r.read n (.array (before ++ j' :: after)) = some a := by
  refine read_of_fields h fun field hfield => ?_
  obtain ⟨hlen, rfl⟩ := Reader.fields_array_eq_some_iff.mp hfield
  refine ⟨_, Reader.fields_array_eq_some_iff.mpr ⟨by simpa using hlen, rfl⟩,
    fun g hg m _ b hb => ?_⟩
  obtain ⟨i, hi⟩ := List.mem_iff_getElem?.mp hg
  simp only [field_of_getElem? hi] at hb ⊢
  by_cases heq : i = before.length
  · subst heq
    obtain rfl := Option.some.inj (hi.symm.trans hf)
    have hmiddle (k : Json) : (before ++ k :: after)[before.length]? = some k := by simp
    rw [hmiddle] at hb ⊢
    exact hread m b hb
  · have hset : before ++ j' :: after = (before ++ j :: after).set before.length j' := by simp
    rwa [hset, List.getElem?_set_ne (Ne.symm heq)]

end Record

/-! ### Every change -/

theorem Rewrite.ne_null {α : Type} {F : Form α} {j j' : Json} (h : Rewrite F j j') :
    j ≠ .null ∧ j' ≠ .null := by
  induction h with
  | present _ ih => exact ih
  | _ => exact ⟨nofun, nofun⟩

namespace Reader

variable {α : Type} {read : Reader α}

theorem optional_of_ne_null {j : Json} (h : j ≠ .null) (n : Nat) :
    Reader.optional read n j = (read n j).map some := by
  unfold Reader.optional
  split
  · exact absurd rfl h
  · rfl

/-- An item of a list matters as what it is read. -/
theorem list_of_item {n : Nat} {before after : List Json} {j j' : Json} {as : List α}
    (hread : ∀ m a, read m j = some a → read m j' = some a)
    (h : Reader.list read n (.array (before ++ j :: after)) = some as) :
    Reader.list read n (.array (before ++ j' :: after)) = some as := by
  cases n with
  | zero => cases h
  | succ n =>
    simp only [Reader.list, List.mapM_append, List.mapM_cons, Option.bind_eq_bind,
      Option.bind_eq_some_iff] at h ⊢
    obtain ⟨bs, hbs, cs, ⟨a, ha, hcs⟩, h⟩ := h
    exact ⟨bs, hbs, cs, ⟨a, hread n a ha, hcs⟩, h⟩

end Reader

namespace Condition

variable {n : Nat} {c : Condition}

theorem read_edge_eq_some_iff {j : Json} : read n (.variant "edge" j) = some c ↔
    ∃ m s t l, n = m + 1 ∧ Record.edgeTest.read m j = some (s, t, l) ∧ .edge s t l = c := by
  cases n with
  | zero => simp [read]
  | succ n => simp [read_edge, readEdge_eq, Option.map_eq_some_iff]

theorem read_not_eq_some_iff {j : Json} : read n (.variant "not" j) = some c ↔
    ∃ m d, n = m + 1 ∧ read m j = some d ∧ .not d = c := by
  cases n with
  | zero => simp [read]
  | succ n => simp [read_not, Option.map_eq_some_iff]

/-- The conjunction or the disjunction of two conditions, by its word. -/
def junction (tag : String) (d e : Condition) : Condition :=
  if tag = "and" then .and d e else .or d e

theorem read_junction_eq_some_iff {tag : String} (htag : tag = "and" ∨ tag = "or") {j k : Json} :
    read n (.variant tag (.array [j, k])) = some c ↔
      ∃ m d e, n = m + 2 ∧ read m j = some d ∧ read m k = some e ∧ junction tag d e = c := by
  match n with
  | 0 => simp [read]
  | 1 =>
    have hread : read 1 (.variant tag (.array [j, k])) = none := by
      obtain rfl | rfl := htag <;> (delta read; rfl)
    simp [hread]
  | n + 2 =>
    have hread : read (n + 2) (.variant tag (.array [j, k])) = do
        let d ← read n j
        let e ← read n k
        return junction tag d e := by
      obtain rfl | rfl := htag
      · exact read_and n j k
      · exact read_or n j k
    simp only [hread, Reader.both_eq_some_iff, Nat.add_right_cancel_iff, exists_and_left,
      exists_eq_left']

end Condition

/-- A change leaves what the JSON is read as. -/
theorem Rewrite.read_eq {α : Type} {F : Form α} {j j' : Json} (h : Rewrite F j j') {n : Nat} {a : α}
    (hread : F.read n j = some a) : F.read n j' = some a := by
  induction h generalizing n with
  | permute h => exact Record.read_permute h hread
  | add hname => exact Record.read_add hname hread
  | drop hf habsent hj => exact Record.read_drop hf habsent hj hread
  | listed h => exact Record.read_listed h hread
  | member hf _ ih => exact Record.read_member hf (fun m b hb => ih hb) hread
  | field hf _ ih => exact Record.read_field hf (fun m b hb => ih hb) hread
  | item _ ih => exact Reader.list_of_item (fun m b hb => ih hb) hread
  | present h ih =>
    obtain ⟨hj, hj'⟩ := h.ne_null
    rw [Form.read, Reader.optional_of_ne_null hj] at hread
    rw [Form.read, Reader.optional_of_ne_null hj']
    obtain ⟨b, hb, rfl⟩ := Option.map_eq_some_iff.mp hread
    exact Option.map_eq_some_iff.mpr ⟨b, ih hb, rfl⟩
  | edge _ ih =>
    obtain ⟨m, s, t, l, hm, hparts, hc⟩ := Condition.read_edge_eq_some_iff.mp hread
    exact Condition.read_edge_eq_some_iff.mpr ⟨m, s, t, l, hm, ih hparts, hc⟩
  | not _ ih =>
    obtain ⟨m, d, hm, hd, hc⟩ := Condition.read_not_eq_some_iff.mp hread
    exact Condition.read_not_eq_some_iff.mpr ⟨m, d, hm, ih hd, hc⟩
  | left htag _ ih =>
    obtain ⟨m, d, e, hm, hd, he, hc⟩ := (Condition.read_junction_eq_some_iff htag).mp hread
    exact (Condition.read_junction_eq_some_iff htag).mpr ⟨m, d, e, hm, ih hd, he, hc⟩
  | right htag _ ih =>
    obtain ⟨m, d, e, hm, hd, he, hc⟩ := (Condition.read_junction_eq_some_iff htag).mp hread
    exact (Condition.read_junction_eq_some_iff htag).mpr ⟨m, d, e, hm, hd, ih he, hc⟩

namespace RuleDecl

/-- A text that is changed at one place is decoded as before. -/
theorem decode?_of_textRewrite {text text' : String} {ds : List RuleDecl}
    (h : TextRewrite text text') (hdecode : decode? text = some ds) : decode? text' = some ds := by
  cases h with
  | layout ht ht' =>
    rw [decode?, Json.parse?_eq_some_iff.mpr ht] at hdecode
    rwa [decode?, Json.parse?_eq_some_iff.mpr ht']
  | value h ht ht' =>
    rw [decode?, Json.parse?_eq_some_iff.mpr ht, Option.bind_some] at hdecode
    rw [decode?, Json.parse?_eq_some_iff.mpr ht', Option.bind_some]
    exact h.read_eq hdecode

/-- A text that is changed, at any places and any number of times, **is decoded as before**. -/
theorem decode?_of_textRewrites {text text' : String} {ds : List RuleDecl}
    (hdecode : decode? text = some ds) (h : Relation.ReflTransGen TextRewrite text text') :
    decode? text' = some ds := by
  induction h with
  | refl => exact hdecode
  | tail _ hlast ih => exact decode?_of_textRewrite hlast ih

/-- A rule that changes nothing. -/
def bare : RuleDecl := { name := "bare", lhs := {}, rhs := {} }

/-- Its members without the list of variables, with an array as the left side and an unknown
member. -/
def bareMembers : List (Option String × Json) :=
  [(some "name", .str "bare"), (some "lhs", .array [.array [], .array []]),
    (some "rhs", bare.rhs.toJson), (some "condition", .null), (some "note", .scalar (.string none))]

/-- A change of the only rule. -/
theorem textRewrite_rule {members members' : List (Option String × Json)}
    (h : Rewrite (.one (.record .rule)) (.object members) (.object members')) :
    TextRewrite (Json.array [.object members]).text (Json.array [.object members']).text :=
  .value (@Rewrite.item _ _ [] [] _ _ h) (Json.writes_text _) (Json.writes_text _)

theorem writes_newline (j : Json) : j.Writes ("\n" ++ j.text) := by
  have hnewline : Token.Laid [] ['\n'] := .nil (by simp [Token.isBlank])
  rw [Json.Writes, String.toList_append]
  exact @Token.Laid.append [] _ ['\n'] _ [] hnewline (List.forall_mem_nil _) (Json.writes_text j)

theorem textRewrites_respelled :
    Relation.ReflTransGen TextRewrite (encode [bare])
      ("\n" ++ (Json.array [.object bareMembers.reverse]).text) := by
  have hdrop := textRewrite_rule (@Rewrite.drop _ .rule [(some "name", .str "bare")]
    [(some "lhs", bare.lhs.toJson), (some "rhs", bare.rhs.toJson), (some "condition", .null)]
    _ (.array []) [] 1 (List.mem_of_getElem? (i := 1) rfl) rfl rfl)
  have hlisted := textRewrite_rule (@Rewrite.member _ .rule [(some "name", .str "bare")]
    [(some "rhs", bare.rhs.toJson), (some "condition", .null)]
    _ bare.lhs.toJson (.array [.array [], .array []]) (List.mem_of_getElem? (i := 2) rfl)
    (.listed (.cons (.head _) (.cons (.tail _ (.head _)) .nil))))
  have hadd := textRewrite_rule (@Rewrite.add _ .rule
    [(some "name", .str "bare"), (some "lhs", .array [.array [], .array []]),
      (some "rhs", bare.rhs.toJson), (some "condition", .null)]
    [] "note" (.scalar (.string none)) (by decide))
  have hpermute :=
    textRewrite_rule (@Rewrite.permute _ .rule _ _ (List.reverse_perm bareMembers).symm)
  have hlayout :=
    TextRewrite.layout (Json.writes_text (.array [.object bareMembers.reverse])) (writes_newline _)
  exact .head hdrop (.head hlisted (.head hadd (.head hpermute (.single hlayout))))

theorem decode?_respelled : decode? (encode [bare]) = some [bare] ∧
    Relation.ReflTransGen TextRewrite (encode [bare])
      ("\n" ++ (Json.array [.object bareMembers.reverse]).text) ∧
    decode? ("\n" ++ (Json.array [.object bareMembers.reverse]).text) = some [bare] := by
  have hbare : decode? (encode [bare]) = some [bare] :=
    decode?_of_writes (by decide) (Json.writes_text _)
  exact ⟨hbare, textRewrites_respelled, decode?_of_textRewrites hbare textRewrites_respelled⟩

end RuleDecl

end GraphTransform
