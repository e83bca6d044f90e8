import TunnelMap.Proofs.Snapshot.Values

/-! What the nodes and edges of a snapshot are read as. Their own fields, their attributes and all that they
do not know stand side by side in one object, in any order. What an entry has of each field is settled by
the values under the names of that field; what stands under no known name is kept, with its last value. -/

namespace TunnelMap

open Json (given others AtMostOne OrNull Names Spells Lists Counts)

/-! ### Fields of open records -/

namespace OpenRecord

section Read

variable {σ α : Type} {r : OpenRecord σ} (ho : r.Orderly) {initial s : σ} {fields : Json.Fields}
  (h : r.read initial (Draft.ofJson (.object fields)) = .ok s)

include ho h

/-- A text that must be given stands there once. -/
theorem text_of_required {f : Field Draft σ} (hf : f ∈ r.required) (part : σ → String)
    (makes : f.Makes Draft.readString part) (changed : r.ChangedBy [f.name] part)
    (keeps : ∀ key j s, part (r.keep key j s) = part s) :
    given f.keys fields = [.string (part s)] := by
  obtain ⟨j, hone, hj⟩ := part_of_required ho h hf part makes changed keeps
  rw [hone, Draft.readString_ofJson.mp hj]

/-- What an attribute is given stands for its part of the value. -/
theorem atMostOne_of_attribute {f : Field Json σ} (hf : f ∈ r.attributes) (part : σ → α)
    {parse : Json → Reads α} {stands : Json → α → Prop}
    (hparse : ∀ j a, parse j.merged = .ok a ↔ stands j a) (makes : f.Makes parse part)
    (changed : r.ChangedBy [f.name] part) (keeps : ∀ key j s, part (r.keep key j s) = part s) :
    AtMostOne stands (part initial) (given f.keys fields) (part s) := by
  refine (part_of_attribute ho h hf part makes changed keeps).imp_right ?_
  rintro ⟨j, hone, hj⟩
  exact ⟨j, hone, (hparse _ _).mp hj⟩

end Read

end OpenRecord

/-! ### Edges -/

namespace EdgeEntry

/-- The names that an edge knows. -/
def known : List String :=
  ["id", "source", "target", "kind", "allowed_ips", "allowedIps", "persistent_keepalive",
    "persistentKeepalive"]

/-- The fields of an object are those of an edge: what it must be given stands there once and all else at
most once, and what it does not know is not too deep to be kept. -/
structure Decoded (fields : Json.Fields) (e : EdgeEntry) : Prop where
  id : given ["id"] fields = [.string e.id.text]
  source : given ["source"] fields = [.string e.source.text]
  target : given ["target"] fields = [.string e.target.text]
  kind : AtMostOne (OrNull (Names EdgeKind.names)) none (given ["kind"] fields) e.kind
  allowedIps : AtMostOne Lists [] (given ["allowed_ips", "allowedIps"] fields) e.attrs.allowedIps
  keepalive : AtMostOne (OrNull Counts) none
    (given ["persistent_keepalive", "persistentKeepalive"] fields) e.attrs.keepalive
  shallow : ∀ field ∈ others known fields, field.2.depth ≤ OpenRecord.room
  extra : e.attrs.extra = Json.mergedFields [] (others known fields)

variable {fields : Json.Fields} {e e' : EdgeEntry}

theorem orderly : record.Orderly where
  distinct := by
    show known.Nodup
    decide
  required f hf := by
    simp only [record, List.mem_cons] at hf ⊢
    tauto

/-- Of a part of an edge only the fields need a name that change it. -/
theorem changedBy {α : Type} {names : List String} {part : EdgeEntry → α}
    (id : "id" ∈ names ∨ ∀ e id, part { e with id := id } = part e := by simp [idField])
    (source : "source" ∈ names ∨ ∀ e source, part { e with source := source } = part e := by
      simp [sourceField])
    (target : "target" ∈ names ∨ ∀ e target, part { e with target := target } = part e := by
      simp [targetField])
    (kind : "kind" ∈ names ∨ ∀ e kind, part { e with kind := kind } = part e := by simp [kindField])
    (allowedIps : "allowed_ips" ∈ names ∨
      ∀ e ips, part { e with attrs.allowedIps := ips } = part e := by simp)
    (keepalive : "persistent_keepalive" ∈ names ∨
      ∀ e seconds, part { e with attrs.keepalive := seconds } = part e := by simp) :
    record.ChangedBy names part where
  fields g hg hname := by
    simp only [record, List.mem_cons, List.not_mem_nil, or_false] at hg
    rcases hg with rfl | rfl | rfl | rfl
    -- A field parses and then sets what it stands for, by definition.
    · exact Field.leaves_of_parse (fun _ _ => rfl) fun e _ => id.resolve_left hname e _
    · exact Field.leaves_of_parse (fun _ _ => rfl) fun e _ => source.resolve_left hname e _
    · exact Field.leaves_of_parse (fun _ _ => rfl) fun e _ => target.resolve_left hname e _
    · exact Field.leaves_of_parse (fun _ _ => rfl) fun e _ => kind.resolve_left hname e _
  attributes g hg hname := by
    simp only [record, List.mem_cons, List.not_mem_nil, or_false] at hg
    rcases hg with rfl | rfl
    · exact Field.leaves_of_parse (fun _ _ => rfl) fun e _ => allowedIps.resolve_left hname e _
    · exact Field.leaves_of_parse (fun _ _ => rfl) fun e _ => keepalive.resolve_left hname e _

theorem decoded_of_read (h : read (Draft.ofJson (.object fields)) = .ok e) : Decoded fields e where
  id := OpenRecord.text_of_required orderly h (f := idField) (by simp [record]) (fun e => e.id.text)
    (Field.makes_of_parse (fun _ _ => rfl) fun _ _ => rfl) changedBy fun _ _ _ => rfl
  source := OpenRecord.text_of_required orderly h (f := sourceField) (by simp [record])
    (fun e => e.source.text) (Field.makes_of_parse (fun _ _ => rfl) fun _ _ => rfl) changedBy
    fun _ _ _ => rfl
  target := OpenRecord.text_of_required orderly h (f := targetField) (by simp [record])
    (fun e => e.target.text) (Field.makes_of_parse (fun _ _ => rfl) fun _ _ => rfl) changedBy
    fun _ _ _ => rfl
  kind := by
    have hf : kindField ∈ record.fields := by simp [record]
    refine (OpenRecord.part_of_field orderly h hf (fun e => e.kind)
      (Field.makes_of_parse (fun _ _ => rfl) fun _ _ => rfl) changedBy fun _ _ _ => rfl).imp_right ?_
    rintro ⟨j, hone, hj⟩
    exact ⟨j, hone, Draft.readEdgeKind?_ofJson.mp hj⟩
  allowedIps := OpenRecord.atMostOne_of_attribute orderly h List.mem_cons_self
    (fun e => e.attrs.allowedIps) (fun _ _ => Json.readStrings_merged)
    (Field.makes_of_parse (fun _ _ => rfl) fun _ _ => rfl) changedBy fun _ _ _ => rfl
  keepalive := OpenRecord.atMostOne_of_attribute orderly h (List.mem_cons_of_mem _ List.mem_cons_self)
    (fun e => e.attrs.keepalive) (fun _ _ => Json.readWord?_merged)
    (Field.makes_of_parse (fun _ _ => rfl) fun _ _ => rfl) changedBy fun _ _ _ => rfl
  shallow := OpenRecord.shallow_of_read h
  extra := OpenRecord.kept_of_read orderly h (fun e => e.attrs.extra) changedBy fun _ _ _ => rfl

theorem Decoded.eq (h : Decoded fields e) (h' : Decoded fields e') : e = e' := by
  have hid := Json.string.inj (List.singleton_inj.mp (h.id.symm.trans h'.id))
  have hsource := Json.string.inj (List.singleton_inj.mp (h.source.symm.trans h'.source))
  have htarget := Json.string.inj (List.singleton_inj.mp (h.target.symm.trans h'.target))
  have hkind := AtMostOne.eq (fun _ _ => Draft.readEdgeKind?_ofJson) h.kind h'.kind
  have hips := AtMostOne.eq (fun _ _ => Json.readStrings_merged) h.allowedIps h'.allowedIps
  have hkeepalive := AtMostOne.eq (fun _ _ => Json.readWord?_merged) h.keepalive h'.keepalive
  have hextra := h.extra.trans h'.extra.symm
  obtain ⟨⟨id⟩, ⟨source⟩, ⟨target⟩, kind, ⟨ips, keepalive, extra⟩⟩ := e
  obtain ⟨⟨id'⟩, ⟨source'⟩, ⟨target'⟩, kind', ⟨ips', keepalive', extra'⟩⟩ := e'
  simp only at hid hsource htarget hkind hips hkeepalive hextra
  rw [hid, hsource, htarget, hkind, hips, hkeepalive, hextra]

theorem read_of_decoded (h : Decoded fields e) : read (Draft.ofJson (.object fields)) = .ok e := by
  -- Some edge is read, and since the fields settle all of it, there is just one that it can be.
  obtain ⟨e', he'⟩ : ∃ e', read (Draft.ofJson (.object fields)) = .ok e' := by
    refine OpenRecord.exists_read orderly (fun f hf => ?_) (fun f hf => ?_) (fun f hf => ?_) h.shallow
    · simp only [record, List.mem_cons, List.not_mem_nil, or_false] at hf
      rcases hf with rfl | rfl | rfl | rfl
      · exact .inr ⟨_, h.id,
          Field.exists_read_of_parse (fun _ _ => rfl) (Draft.readString_ofJson.mpr rfl)⟩
      · exact .inr ⟨_, h.source,
          Field.exists_read_of_parse (fun _ _ => rfl) (Draft.readString_ofJson.mpr rfl)⟩
      · exact .inr ⟨_, h.target,
          Field.exists_read_of_parse (fun _ _ => rfl) (Draft.readString_ofJson.mpr rfl)⟩
      · exact h.kind.imp fun j hj =>
          Field.exists_read_of_parse (fun _ _ => rfl) (Draft.readEdgeKind?_ofJson.mpr hj)
    · simp only [record, List.mem_cons, List.not_mem_nil, or_false] at hf
      rcases hf with rfl | rfl | rfl
      · exact ne_of_eq_of_ne h.id (List.cons_ne_nil _ _)
      · exact ne_of_eq_of_ne h.source (List.cons_ne_nil _ _)
      · exact ne_of_eq_of_ne h.target (List.cons_ne_nil _ _)
    · simp only [record, List.mem_cons, List.not_mem_nil, or_false] at hf
      rcases hf with rfl | rfl
      · exact h.allowedIps.imp fun j hj => ⟨hj.depth_le,
          Field.exists_read_of_parse (fun _ _ => rfl) (Json.readStrings_merged.mpr hj)⟩
      · exact h.keepalive.imp fun j hj => ⟨hj.depth_le Counts.depth_le,
          Field.exists_read_of_parse (fun _ _ => rfl) (Json.readWord?_merged.mpr hj)⟩
  rw [h.eq (decoded_of_read he')]
  exact he'

theorem Decoded.reordered {fields' : Json.Fields} (h : Decoded fields e)
    (hf : Json.Reordered known fields fields') : Decoded fields' e where
  id := hf.given_eq h.id
  source := hf.given_eq h.source
  target := hf.given_eq h.target
  kind := h.kind.reordered hf
  allowedIps := h.allowedIps.reordered hf
  keepalive := h.keepalive.reordered hf
  shallow := hf.others ▸ h.shallow
  extra := hf.others ▸ h.extra

end EdgeEntry

/-! ### Nodes -/

namespace NodeEntry

/-- The names that a node knows. -/
def known : List String := ["id", "kind", "name", "address"]

/-- The fields of an object are those of a node, in the same way. -/
structure Decoded (fields : Json.Fields) (n : NodeEntry) : Prop where
  id : given ["id"] fields = [.string n.id.text]
  kind : ∃ j, given ["kind"] fields = [j] ∧ j.Names NodeKind.names n.kind
  name : AtMostOne (OrNull Spells) none (given ["name"] fields) n.attrs.name
  address : AtMostOne (OrNull Spells) none (given ["address"] fields) n.attrs.address
  shallow : ∀ field ∈ others known fields, field.2.depth ≤ OpenRecord.room
  extra : n.attrs.extra = Json.mergedFields [] (others known fields)

variable {fields : Json.Fields} {n n' : NodeEntry}

theorem orderly : record.Orderly where
  distinct := by
    show known.Nodup
    decide
  required _ := fun hf => hf

/-- Of a part of a node only the fields need a name that change it. -/
theorem changedBy {α : Type} {names : List String} {part : NodeEntry → α}
    (id : "id" ∈ names ∨ ∀ n id, part { n with id := id } = part n := by simp [idField])
    (kind : "kind" ∈ names ∨ ∀ n kind, part { n with kind := kind } = part n := by simp [kindField])
    (name : "name" ∈ names ∨ ∀ n name, part { n with attrs.name := name } = part n := by simp)
    (address : "address" ∈ names ∨
      ∀ n address, part { n with attrs.address := address } = part n := by simp) :
    record.ChangedBy names part where
  fields g hg hname := by
    simp only [record, List.mem_cons, List.not_mem_nil, or_false] at hg
    rcases hg with rfl | rfl
    · exact Field.leaves_of_parse (fun _ _ => rfl) fun n _ => id.resolve_left hname n _
    · exact Field.leaves_of_parse (fun _ _ => rfl) fun n _ => kind.resolve_left hname n _
  attributes g hg hname := by
    simp only [record, List.mem_cons, List.not_mem_nil, or_false] at hg
    rcases hg with rfl | rfl
    · exact Field.leaves_of_parse (fun _ _ => rfl) fun n _ => name.resolve_left hname n _
    · exact Field.leaves_of_parse (fun _ _ => rfl) fun n _ => address.resolve_left hname n _

theorem decoded_of_read (h : read (Draft.ofJson (.object fields)) = .ok n) : Decoded fields n where
  id := OpenRecord.text_of_required orderly h (f := idField) (by simp [record]) (fun n => n.id.text)
    (Field.makes_of_parse (fun _ _ => rfl) fun _ _ => rfl) changedBy fun _ _ _ => rfl
  kind := by
    have hf : kindField ∈ record.required := by simp [record]
    obtain ⟨j, hone, hj⟩ := OpenRecord.part_of_required orderly h hf (fun n => n.kind)
      (Field.makes_of_parse (fun _ _ => rfl) fun _ _ => rfl) changedBy fun _ _ _ => rfl
    exact ⟨j, hone, Draft.readVariant_ofJson.mp hj⟩
  name := OpenRecord.atMostOne_of_attribute orderly h List.mem_cons_self
    (fun n => n.attrs.name) (fun _ _ => Json.readString?_merged)
    (Field.makes_of_parse (fun _ _ => rfl) fun _ _ => rfl) changedBy fun _ _ _ => rfl
  address := OpenRecord.atMostOne_of_attribute orderly h (List.mem_cons_of_mem _ List.mem_cons_self)
    (fun n => n.attrs.address) (fun _ _ => Json.readString?_merged)
    (Field.makes_of_parse (fun _ _ => rfl) fun _ _ => rfl) changedBy fun _ _ _ => rfl
  shallow := OpenRecord.shallow_of_read h
  extra := OpenRecord.kept_of_read orderly h (fun n => n.attrs.extra) changedBy fun _ _ _ => rfl

theorem Decoded.eq (h : Decoded fields n) (h' : Decoded fields n') : n = n' := by
  have hid := Json.string.inj (List.singleton_inj.mp (h.id.symm.trans h'.id))
  have hkind : n.kind = n'.kind := by
    obtain ⟨j, hone, hj⟩ := h.kind
    obtain ⟨j', hone', hj'⟩ := h'.kind
    obtain rfl := List.singleton_inj.mp (hone.symm.trans hone')
    exact Json.eq_of_stands (j := j) (fun _ _ => Draft.readVariant_ofJson) hj hj'
  have hname := AtMostOne.eq (fun _ _ => Json.readString?_merged) h.name h'.name
  have haddress := AtMostOne.eq (fun _ _ => Json.readString?_merged) h.address h'.address
  have hextra := h.extra.trans h'.extra.symm
  obtain ⟨⟨id⟩, kind, ⟨name, address, extra⟩⟩ := n
  obtain ⟨⟨id'⟩, kind', ⟨name', address', extra'⟩⟩ := n'
  simp only at hid hkind hname haddress hextra
  rw [hid, hkind, hname, haddress, hextra]

theorem read_of_decoded (h : Decoded fields n) : read (Draft.ofJson (.object fields)) = .ok n := by
  obtain ⟨n', hn'⟩ : ∃ n', read (Draft.ofJson (.object fields)) = .ok n' := by
    obtain ⟨j, hkind, hj⟩ := h.kind
    refine OpenRecord.exists_read orderly (fun f hf => ?_) (fun f hf => ?_) (fun f hf => ?_) h.shallow
    · simp only [record, List.mem_cons, List.not_mem_nil, or_false] at hf
      rcases hf with rfl | rfl
      · exact .inr ⟨_, h.id,
          Field.exists_read_of_parse (fun _ _ => rfl) (Draft.readString_ofJson.mpr rfl)⟩
      · exact .inr ⟨j, hkind,
          Field.exists_read_of_parse (fun _ _ => rfl) (Draft.readVariant_ofJson.mpr hj)⟩
    · simp only [record, List.mem_cons, List.not_mem_nil, or_false] at hf
      rcases hf with rfl | rfl
      · exact ne_of_eq_of_ne h.id (List.cons_ne_nil _ _)
      · exact ne_of_eq_of_ne hkind (List.cons_ne_nil _ _)
    · simp only [record, List.mem_cons, List.not_mem_nil, or_false] at hf
      rcases hf with rfl | rfl
      · exact h.name.imp fun j hj => ⟨hj.depth_le Spells.depth_le,
          Field.exists_read_of_parse (fun _ _ => rfl) (Json.readString?_merged.mpr hj)⟩
      · exact h.address.imp fun j hj => ⟨hj.depth_le Spells.depth_le,
          Field.exists_read_of_parse (fun _ _ => rfl) (Json.readString?_merged.mpr hj)⟩
  rw [h.eq (decoded_of_read hn')]
  exact hn'

theorem Decoded.reordered {fields' : Json.Fields} (h : Decoded fields n)
    (hf : Json.Reordered known fields fields') : Decoded fields' n where
  id := hf.given_eq h.id
  kind := h.kind.imp fun _ hj => hj.imp_left hf.given_eq
  name := h.name.reordered hf
  address := h.address.reordered hf
  shallow := hf.others ▸ h.shallow
  extra := hf.others ▸ h.extra

end NodeEntry

/-! ### Both -/

/-- An object is read as an edge or as a node just if it has its fields: those that must be given once, the
others once at most, under any of their names. What it has under other names is kept, with the last value
of each, and where the known fields stand among them does not matter. -/
theorem entries_decoded (fields : Json.Fields) :
    ((∀ e, EdgeEntry.read (Draft.ofJson (.object fields)) = .ok e ↔ EdgeEntry.Decoded fields e) ∧
      (∀ e, EdgeEntry.read (Draft.ofJson (.object fields)) = .ok e →
        Json.Kept EdgeEntry.known fields e.attrs.extra) ∧
      ∀ fields', Json.Reordered EdgeEntry.known fields fields' → ∀ e,
        EdgeEntry.read (Draft.ofJson (.object fields)) = .ok e ↔
          EdgeEntry.read (Draft.ofJson (.object fields')) = .ok e) ∧
    ((∀ n, NodeEntry.read (Draft.ofJson (.object fields)) = .ok n ↔ NodeEntry.Decoded fields n) ∧
      (∀ n, NodeEntry.read (Draft.ofJson (.object fields)) = .ok n →
        Json.Kept NodeEntry.known fields n.attrs.extra) ∧
      ∀ fields', Json.Reordered NodeEntry.known fields fields' → ∀ n,
        NodeEntry.read (Draft.ofJson (.object fields)) = .ok n ↔
          NodeEntry.read (Draft.ofJson (.object fields')) = .ok n) := by
  refine ⟨⟨fun e => ?_, fun e he => ?_, fun fields' hf e => ?_⟩, fun n => ?_, fun n hn => ?_,
    fun fields' hf n => ?_⟩
  · exact ⟨EdgeEntry.decoded_of_read, EdgeEntry.read_of_decoded⟩
  · rw [(EdgeEntry.decoded_of_read he).extra]
    exact Json.kept_mergedFields _ _
  · exact ⟨fun he => EdgeEntry.read_of_decoded ((EdgeEntry.decoded_of_read he).reordered hf),
      fun he => EdgeEntry.read_of_decoded ((EdgeEntry.decoded_of_read he).reordered hf.symm)⟩
  · exact ⟨NodeEntry.decoded_of_read, NodeEntry.read_of_decoded⟩
  · rw [(NodeEntry.decoded_of_read hn).extra]
    exact Json.kept_mergedFields _ _
  · exact ⟨fun hn => NodeEntry.read_of_decoded ((NodeEntry.decoded_of_read hn).reordered hf),
      fun hn => NodeEntry.read_of_decoded ((NodeEntry.decoded_of_read hn).reordered hf.symm)⟩

/-- An edge with a list under its other name and a foreign key twice, wherever its own fields stand, and a
node with its kind as an object. -/
theorem entries_decoded_amid_others :
    let rest : Json.Fields := [("allowedIps", .array [.string "10.0.0.0/8"]), ("source", .string "a"),
      ("x", .object [("k", .null), ("k", .bool true)]), ("target", .string "b"), ("kind", .null)]
    let e : EdgeEntry :=
      ⟨⟨"e"⟩, ⟨"a"⟩, ⟨"b"⟩, none, ["10.0.0.0/8"], none, [("x", .object [("k", .bool true)])]⟩
    let node : Json.Fields :=
      [("role", .string "hub"), ("kind", .object [("host", .null)]), ("id", .string "n")]
    let n : NodeEntry := ⟨⟨"n"⟩, .host, none, none, [("role", .string "hub")]⟩
    EdgeEntry.read (Draft.ofJson (.object (("x", .null) :: ("id", .string "e") :: rest))) = .ok e ∧
    EdgeEntry.read (Draft.ofJson (.object (("id", .string "e") :: ("x", .null) :: rest))) = .ok e ∧
    Json.Kept EdgeEntry.known (("x", .null) :: ("id", .string "e") :: rest) e.attrs.extra ∧
    NodeEntry.read (Draft.ofJson (.object node)) = .ok n ∧
    Json.Kept NodeEntry.known node n.attrs.extra := by
  intro rest e node n
  obtain ⟨⟨hedge, hkept, hmoved⟩, -⟩ :=
    entries_decoded (("x", .null) :: ("id", .string "e") :: rest)
  obtain ⟨-, hnode, hnodeKept, -⟩ := entries_decoded node
  have he := (hedge e).mpr {
    id := by rfl
    source := by rfl
    target := by rfl
    kind := .inr ⟨.null, by rfl, .inl ⟨rfl, rfl⟩⟩
    allowedIps := .inr ⟨_, by rfl, by rfl⟩
    keepalive := .inl ⟨by rfl, rfl⟩
    shallow := by simp [rest, others, EdgeEntry.known, Json.depth, Json.depthFields, OpenRecord.room]
    extra := by rfl }
  have hn := (hnode n).mpr {
    id := by rfl
    kind := ⟨_, by rfl, "host", by rfl, .inr rfl⟩
    name := .inl ⟨by rfl, rfl⟩
    address := .inl ⟨by rfl, rfl⟩
    shallow := by simp [node, others, NodeEntry.known, Json.depth, OpenRecord.room]
    extra := by rfl }
  exact ⟨he, (hmoved _ ⟨.swap _ _ _, by rfl⟩ e).mp he, hkept e he, hn, hnodeKept n hn⟩

theorem Json.depth_repeat (n : Nat) (j : Json) :
    (Nat.repeat (fun j => .array [j]) n j).depth = n + j.depth := by
  induction n with
  | zero => simp only [Nat.repeat, Nat.zero_add]
  | succ n ih =>
    simp only [Nat.repeat, depth, depthItems, ih, Nat.max_zero]
    omega

/-- An edge that has just its ends and its name is not read, for what it keeps is too deep. -/
theorem EdgeEntry.too_deep_to_keep :
    let deep : Json := Nat.repeat (fun j => .array [j]) 125 .null
    let fields : Json.Fields :=
      [("id", .string "e"), ("source", .string "a"), ("target", .string "b"), ("x", deep)]
    given ["id"] fields = [.string "e"] ∧ given ["source"] fields = [.string "a"] ∧
      given ["target"] fields = [.string "b"] ∧ given ["kind"] fields = [] ∧
      given ["allowed_ips", "allowedIps"] fields = [] ∧
      given ["persistent_keepalive", "persistentKeepalive"] fields = [] ∧
      ∀ e, EdgeEntry.read (Draft.ofJson (.object fields)) ≠ .ok e := by
  intro deep fields
  refine ⟨rfl, rfl, rfl, rfl, rfl, rfl, fun e he => ?_⟩
  have hdeep := (decoded_of_read he).shallow ("x", deep) (by simp [fields, others, known])
  rw [Json.depth_repeat] at hdeep
  exact absurd hdeep (by decide)

end TunnelMap
