import TunnelMap.Proofs.Json.Taking

/-! Objects that keep the fields that they do not know. The two layers of such an object, its own fields and
its attributes, go by different names, so each field finds the values under its names, wherever in the
object they stand; and what goes by none of the names is kept, with its last value. -/

namespace TunnelMap

open Json (given others)

namespace Json

variable {α β : Type} {fields : List (String × α)}

theorem others_map (names : List String) (f : α → β) :
    others names (fields.map (Prod.map id f)) = (others names fields).map (Prod.map id f) := by
  simp [others, List.filter_map, Function.comp_def]

theorem others_others (names names' : List String) :
    others names' (others names fields) = others (names ++ names') fields := by
  simp [others, List.filter_filter, Bool.and_comm]

theorem mem_others {names : List String} {field : String × α} :
    field ∈ others names fields ↔ field ∈ fields ∧ field.1 ∉ names := by
  simp [others]

/-- Under other names there are the other fields. -/
theorem given_others {names names' : List String} (h : names.Disjoint names') :
    given names' (others names fields) = given names' fields := by
  rw [given, given, others, List.filter_filter]
  refine congrArg _ (List.filter_congr fun field _ => ?_)
  by_cases hkey : field.1 ∈ names'
  · have hname : field.1 ∉ names := fun hmem => h hmem hkey
    simp [hkey, hname]
  · simp [hkey]

theorem mem_given {names : List String} {a : α} :
    a ∈ given names fields ↔ ∃ name ∈ names, (name, a) ∈ fields := by
  simp [given, and_comm]

theorem foldl_insert_merged (sofar : Fields) (fields : List (String × Json)) :
    (fields.map (Prod.map id merged)).foldl (fun kept field => kept.insert field.1 field.2) sofar =
      mergedFields sofar fields := by
  induction fields generalizing sofar with
  | nil => rfl
  | cons field fields ih => exact ih _

/-- All that is given under other names is kept, under each name with its last value. -/
structure Kept (known : List String) (fields extra : Fields) : Prop where
  names : ∀ name, name ∈ extra.map Prod.fst ↔ name ∉ known ∧ name ∈ fields.map Prod.fst
  nodup : (extra.map Prod.fst).Nodup
  last : ∀ name ∉ known, extra.get? name = (given [name] fields).getLast?.map merged

theorem kept_mergedFields (known : List String) (fields : Fields) :
    Kept known fields (mergedFields [] (others known fields)) where
  names name := by
    rw [mem_names_mergedFields]
    simp [mem_others, and_comm]
  nodup := nodup_names_mergedFields (by simp) _
  last name hname := by
    have hdisjoint : known.Disjoint [name] :=
      List.disjoint_singleton.mpr hname
    rw [get?_mergedFields, given_others hdisjoint]
    exact Option.or_none

/-- The same fields, where only known ones may stand elsewhere among the others. -/
structure Reordered (known : List String) (fields fields' : Fields) : Prop where
  perm : fields.Perm fields'
  others : others known fields = others known fields'

theorem Reordered.symm {known : List String} {fields fields' : Fields}
    (h : Reordered known fields fields') : Reordered known fields' fields :=
  ⟨h.perm.symm, h.others.symm⟩

theorem Reordered.given_eq {known names : List String} {fields fields' : Fields} {j : Json}
    (h : Reordered known fields fields') (hone : given names fields = [j]) : given names fields' = [j] :=
  List.perm_singleton.mp (hone ▸ given_perm h.perm.symm)

end Json

theorem Partial.require_eq_ok {source σ : Type} {p : Partial σ} {fields : List (Field source σ)} :
    p.require fields = .ok () ↔ ∀ f ∈ fields, f.name ∈ p.seen := by
  unfold require
  cases hm : Field.missing? fields p.seen with
  | none =>
    refine iff_of_true rfl fun f hf => ?_
    simpa using List.find?_eq_none.mp hm f hf
  | some f =>
    refine iff_of_false nofun fun h => ?_
    have hunseen := List.find?_some hm
    simp [h f (List.mem_of_find?_eq_some hm)] at hunseen

namespace OpenRecord

variable {σ α : Type} {r : OpenRecord σ}

/-- The names of the own fields. -/
def ownKeys (r : OpenRecord σ) : List String := r.fields.flatMap Field.keys

/-- All names that a record knows. -/
def known (r : OpenRecord σ) : List String := r.ownKeys ++ r.attributes.flatMap Field.keys

/-- No key goes for two fields, and only own fields must be given. -/
structure Orderly (r : OpenRecord σ) : Prop where
  distinct : r.known.Nodup
  required : ∀ f ∈ r.required, f ∈ r.fields

/-- Of all fields only those with some names change a part of the value. -/
structure ChangedBy (r : OpenRecord σ) (names : List String) (part : σ → α) : Prop where
  fields : ∀ g ∈ r.fields, g.name ∉ names → g.Leaves part
  attributes : ∀ g ∈ r.attributes, g.name ∉ names → g.Leaves part

namespace Orderly

variable (ho : r.Orderly)

include ho

theorem fields : Field.Distinct r.fields := (List.nodup_append.mp ho.distinct).1

theorem attributes : Field.Distinct r.attributes := (List.nodup_append.mp ho.distinct).2.1

theorem disjoint {f : Field Json σ} (hf : f ∈ r.attributes) : r.ownKeys.Disjoint f.keys :=
  fun _ hown hkey => (List.nodup_append.mp ho.distinct).2.2 _ hown _
    (List.mem_flatMap.mpr ⟨f, hf, hkey⟩) rfl

end Orderly

/-! ### The two layers -/

/-- The own fields take what is theirs; all else is set aside, if it is not too deep. -/
theorem readOwn_eq_ok {fields : Json.Fields} {p q : Partial σ} {kept : Json.Fields} :
    r.readOwn (Draft.ofFields fields) p = .ok (q, kept) ↔
      Partial.run r.fields (fun _ _ s => s) (fields.map (Prod.map id Draft.ofJson)) p = .ok q ∧
        (∀ field ∈ others r.ownKeys fields, field.2.depth ≤ room) ∧
        kept = (others r.ownKeys fields).map (Prod.map id Json.merged) := by
  induction fields generalizing p kept with
  | nil =>
    constructor
    · intro h
      obtain ⟨rfl, rfl⟩ := Prod.mk.inj (Except.ok.inj h)
      exact ⟨rfl, nofun, rfl⟩
    · rintro ⟨hrun, -, rfl⟩
      obtain rfl := Except.ok.inj hrun
      rfl
  | cons field fields ih =>
    obtain ⟨name, j⟩ := field
    rw [List.map_cons, Partial.run_cons]
    simp only [Draft.ofFields, readOwn, Except.mapError, Except.bind_eq_ok, Except.ok.injEq,
      exists_eq_left']
    cases hn : Field.named? r.fields name with
    | some f =>
      have hkey : name ∈ r.ownKeys :=
        List.mem_flatMap.mpr ⟨f, Field.mem_of_named? hn⟩
      have hothers : others r.ownKeys ((name, j) :: fields) = others r.ownKeys fields :=
        Json.others_cons_of_mem hkey
      simp only [hothers, Partial.step, Prod.map, id, hn, Except.bind_eq_ok, ih]
      rw [← exists_and_right]
      exact exists_congr fun _ => and_assoc.symm
    | none =>
      have hkey : name ∉ r.ownKeys := Field.named?_eq_none.mp hn
      have hothers : others r.ownKeys ((name, j) :: fields) = (name, j) :: others r.ownKeys fields :=
        Json.others_cons_of_notMem hkey
      simp only [hothers, Partial.step, Prod.map, id, hn, Except.bind_eq_ok, Draft.toJson_ofJson]
      by_cases hdeep : j.depth ≤ room
      · rw [if_pos hdeep]
        constructor
        · rintro ⟨a, ha, ⟨q', kept'⟩, hrest, hpair⟩
          obtain rfl := Except.ok.inj ha
          obtain ⟨rfl, rfl⟩ := Prod.mk.inj (Except.ok.inj hpair)
          obtain ⟨hrun, hshallow, rfl⟩ := ih.mp hrest
          exact ⟨⟨_, rfl, hrun⟩, List.forall_mem_cons.mpr ⟨hdeep, hshallow⟩, rfl⟩
        · rintro ⟨⟨q', hq', hrun⟩, hshallow, rfl⟩
          obtain rfl := Except.ok.inj hq'
          exact ⟨_, rfl, (q, _), ih.mpr ⟨hrun, (List.forall_mem_cons.mp hshallow).2, rfl⟩, rfl⟩
      · rw [if_neg hdeep]
        constructor
        · rintro ⟨a, ha, -⟩
          cases ha
        · exact fun h => absurd (h.2.1 _ List.mem_cons_self) hdeep

theorem readAttributes_eq_run (others : Json.Fields) (p : Partial σ) :
    r.readAttributes others p = Partial.run r.attributes r.keep others p := by
  induction others generalizing p with
  | nil => rfl
  | cons field others ih =>
    obtain ⟨name, j⟩ := field
    rw [readAttributes, Partial.run, List.foldlM_cons, Partial.step]
    cases Field.named? r.attributes name with
    | some f => exact congrArg (p.take f j >>= ·) (funext ih)
    | none => exact ih _

/-- An object is read layer by layer. -/
theorem read_eq_ok {initial s : σ} {fields : Json.Fields} :
    r.read initial (Draft.ofJson (.object fields)) = .ok s ↔ ∃ p q,
      Partial.run r.fields (fun _ _ s => s) (fields.map (Prod.map id Draft.ofJson)) ⟨initial, []⟩ =
        .ok p ∧
      (∀ field ∈ others r.ownKeys fields, field.2.depth ≤ room) ∧
      (∀ f ∈ r.required, f.name ∈ p.seen) ∧
      Partial.run r.attributes r.keep ((others r.ownKeys fields).map (Prod.map id Json.merged)) p =
        .ok q ∧ q.value = s := by
  rw [Draft.ofJson, read]
  simp only [Draft.Ending.read, Except.mapError, Except.bind_eq_ok, Prod.exists, readOwn_eq_ok,
    readAttributes_eq_run]
  constructor
  · rintro ⟨p, _, ⟨hown, hshallow, rfl⟩, _, _, _, hrequired, q, hattributes, hs⟩
    exact ⟨p, q, hown, hshallow, Partial.require_eq_ok.mp hrequired, hattributes, Except.ok.inj hs⟩
  · rintro ⟨p, q, hown, hshallow, hrequired, hattributes, rfl⟩
    exact ⟨p, _, ⟨hown, hshallow, rfl⟩, (), trivial, (), Partial.require_eq_ok.mpr hrequired, q,
      hattributes, rfl⟩

section Read

variable (ho : r.Orderly) {initial s : σ} {fields : Json.Fields}

include ho

/-- Fields that are given nothing, or one value that they can read, and are given one if they must be, make
an object that can be read, if what it keeps is not too deep. -/
theorem exists_read
    (own : ∀ f ∈ r.fields, given f.keys fields = [] ∨
      ∃ j, given f.keys fields = [j] ∧ ∀ s, ∃ s', f.read (Draft.ofJson j) s = .ok s')
    (required : ∀ f ∈ r.required, given f.keys fields ≠ [])
    (attributes : ∀ f ∈ r.attributes, given f.keys fields = [] ∨
      ∃ j, given f.keys fields = [j] ∧ j.depth ≤ room ∧ ∀ s, ∃ s', f.read j.merged s = .ok s')
    (shallow : ∀ field ∈ others r.known fields, field.2.depth ≤ room) :
    ∃ s, r.read initial (Draft.ofJson (.object fields)) = .ok s := by
  obtain ⟨p, hp⟩ : ∃ p, Partial.run r.fields (fun _ _ s => s)
      (fields.map (Prod.map id Draft.ofJson)) ⟨initial, []⟩ = .ok p :=
    Partial.exists_run_map ho.fields fun f hf =>
      (own f hf).imp_right fun ⟨j, hone, hread⟩ => ⟨j, hone, List.not_mem_nil, hread⟩
  have hunseen (f : Field Json σ) (hf : f ∈ r.attributes) : f.name ∉ p.seen := fun hname => by
    rcases (Partial.mem_seen_of_run ho.fields hp).mp hname with hnil | ⟨g, hg, hsame, -⟩
    · exact absurd hnil List.not_mem_nil
    · have hown : f.name ∈ r.ownKeys := List.mem_flatMap.mpr ⟨g, hg, hsame ▸ g.name_mem_keys⟩
      exact ho.disjoint hf hown f.name_mem_keys
  obtain ⟨q, hq⟩ : ∃ q, Partial.run r.attributes r.keep
      ((others r.ownKeys fields).map (Prod.map id Json.merged)) p = .ok q :=
    Partial.exists_run_map ho.attributes fun f hf => by
      rw [Json.given_others (ho.disjoint hf)]
      exact (attributes f hf).imp_right fun ⟨j, hone, _, hread⟩ => ⟨j, hone, hunseen f hf, hread⟩
  refine ⟨q.value, read_eq_ok.mpr ⟨p, q, hp, fun field hfield => ?_, fun f hf => ?_, hq, rfl⟩⟩
  · obtain ⟨hmem, hown⟩ := Json.mem_others.mp hfield
    by_cases hkey : field.1 ∈ r.attributes.flatMap Field.keys
    · obtain ⟨f, hf, hkf⟩ := List.mem_flatMap.mp hkey
      have hgiven : field.2 ∈ given f.keys fields := Json.mem_given.mpr ⟨field.1, hkf, hmem⟩
      rcases attributes f hf with hnone | ⟨j, hone, hshallow, -⟩
      · exact absurd (hnone ▸ hgiven) List.not_mem_nil
      · exact List.mem_singleton.mp (hone ▸ hgiven) ▸ hshallow
    · refine shallow field (Json.mem_others.mpr ⟨hmem, fun hknown => ?_⟩)
      exact (List.mem_append.mp hknown).elim hown hkey
  · exact (Partial.mem_seen_of_run_map ho.fields hp (ho.required f hf) List.not_mem_nil).mpr
      (required f hf)

variable (h : r.read initial (Draft.ofJson (.object fields)) = .ok s)

include h

theorem given_of_required {f : Field Draft σ} (hf : f ∈ r.required) : given f.keys fields ≠ [] := by
  obtain ⟨p, q, hown, -, hrequired, -⟩ := read_eq_ok.mp h
  exact (Partial.mem_seen_of_run_map ho.fields hown (ho.required f hf) List.not_mem_nil).mp
    (hrequired f hf)

omit ho in
theorem shallow_of_read : ∀ field ∈ others r.known fields, field.2.depth ≤ room := by
  obtain ⟨p, q, -, hshallow, -⟩ := read_eq_ok.mp h
  intro field hfield
  obtain ⟨hmem, hknown⟩ := Json.mem_others.mp hfield
  exact hshallow field (Json.mem_others.mpr ⟨hmem, fun hown => hknown (List.mem_append_left _ hown)⟩)

/-- A part that only one own field changes is as that field makes it of its one value, or as it was. -/
theorem part_of_field {f : Field Draft σ} (hf : f ∈ r.fields) (part : σ → α)
    {parse : Draft → Reads α} (makes : f.Makes parse part) (changed : r.ChangedBy [f.name] part)
    (keeps : ∀ key j s, part (r.keep key j s) = part s) :
    (given f.keys fields = [] ∧ part s = part initial) ∨
      ∃ j, given f.keys fields = [j] ∧ parse (Draft.ofJson j) = .ok (part s) := by
  obtain ⟨p, q, hown, -, -, hattributes, rfl⟩ := read_eq_ok.mp h
  have hleft (g : Field Json σ) (hg : g ∈ r.attributes) : g.Leaves part :=
    changed.attributes g hg fun hname => ho.disjoint hg
      (List.mem_flatMap.mpr ⟨f, hf, f.name_mem_keys⟩)
      (List.mem_singleton.mp hname ▸ g.name_mem_keys)
  rw [Partial.left_of_run ho.attributes hattributes part hleft keeps]
  exact Partial.part_of_run_map ho.fields hown hf part makes changed.fields fun _ _ _ => rfl

/-- If that field must be given, it has one value. -/
theorem part_of_required {f : Field Draft σ} (hf : f ∈ r.required) (part : σ → α)
    {parse : Draft → Reads α} (makes : f.Makes parse part) (changed : r.ChangedBy [f.name] part)
    (keeps : ∀ key j s, part (r.keep key j s) = part s) :
    ∃ j, given f.keys fields = [j] ∧ parse (Draft.ofJson j) = .ok (part s) :=
  (part_of_field ho h (ho.required f hf) part makes changed keeps).resolve_left fun hnone =>
    given_of_required ho h hf hnone.1

/-- The same of a part that only one attribute changes. -/
theorem part_of_attribute {f : Field Json σ} (hf : f ∈ r.attributes) (part : σ → α)
    {parse : Json → Reads α} (makes : f.Makes parse part) (changed : r.ChangedBy [f.name] part)
    (keeps : ∀ key j s, part (r.keep key j s) = part s) :
    (given f.keys fields = [] ∧ part s = part initial) ∨
      ∃ j, given f.keys fields = [j] ∧ parse j.merged = .ok (part s) := by
  obtain ⟨p, q, hown, -, -, hattributes, rfl⟩ := read_eq_ok.mp h
  have hleft (g : Field Draft σ) (hg : g ∈ r.fields) : g.Leaves part :=
    changed.fields g hg fun hname => ho.disjoint hf
      (List.mem_flatMap.mpr ⟨g, hg, List.mem_singleton.mp hname ▸ g.name_mem_keys⟩) f.name_mem_keys
  have hpart := Partial.part_of_run_map ho.attributes hattributes hf part makes changed.attributes keeps
  have hsame : part p.value = part initial :=
    Partial.left_of_run ho.fields hown part hleft fun _ _ _ => rfl
  rwa [Json.given_others (ho.disjoint hf), hsame] at hpart

/-- What is kept is what is given under no known name, with its last values. -/
theorem kept_of_read (part : σ → Json.Fields) (changed : r.ChangedBy [] part)
    (keeps : ∀ key j s, part (r.keep key j s) = (part s).insert key j) :
    part s = Json.mergedFields (part initial) (others r.known fields) := by
  obtain ⟨p, q, hown, -, -, hattributes, rfl⟩ := read_eq_ok.mp h
  have hsame : part p.value = part initial :=
    Partial.left_of_run ho.fields hown part
      (fun g hg => changed.fields g hg List.not_mem_nil) fun _ _ _ => rfl
  rw [Partial.passed_of_run ho.attributes hattributes part
      (fun g hg => changed.attributes g hg List.not_mem_nil)
      (fun kept field => kept.insert field.1 field.2) keeps, hsame, Json.others_map,
    Json.others_others, Json.foldl_insert_merged]
  rfl

end Read

end OpenRecord

end TunnelMap
