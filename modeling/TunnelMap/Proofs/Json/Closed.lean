import TunnelMap.Proofs.Json.Open

/-! Records that pass over the fields that they do not know, as objects and as arrays. In an object each
field finds the values under its names, wherever they stand, and nothing else counts. An array gives
values to the first fields of the record in their order, and is read as the object that gives them under
the names of the fields. -/

namespace TunnelMap

open Json (given)

namespace Draft

mutual

/-- A whole value can be passed over, however deep it is. -/
theorem skip_ofJson : (j : Json) → (ofJson j).skip = .ok ()
  | .null | .bool _ | .number _ | .string _ => rfl
  | .array items => by
    rw [ofJson, skip, skipItems_ofItems items]
    rfl
  | .object fields => by
    rw [ofJson, skip, skipFields_ofFields fields]
    rfl

theorem skipItems_ofItems : (js : List Json) → skipItems (ofItems js) = .ok ()
  | [] => rfl
  | j :: js => by
    rw [ofItems, skipItems, skip_ofJson j]
    exact skipItems_ofItems js

theorem skipFields_ofFields : (fields : List (String × Json)) → skipFields (ofFields fields) = .ok ()
  | [] => rfl
  | (name, j) :: fields => by
    rw [ofFields, skipFields, skip_ofJson j]
    exact skipFields_ofFields fields

end

end Draft

theorem Field.Distinct.names_nodup {source σ : Type} {table : List (Field source σ)}
    (hd : Distinct table) : (table.map Field.name).Nodup := by
  refine List.pairwise_map.mpr ((List.nodup_flatMap.mp hd).2.imp fun hdisjoint hname => ?_)
  exact hdisjoint (Field.name_mem_keys _) (hname ▸ Field.name_mem_keys _)

namespace Record

variable {σ α : Type} {r : Record σ} {initial s : σ}

/-- Of all fields only those with some names change a part of the value. -/
def ChangedBy (r : Record σ) (names : List String) (part : σ → α) : Prop :=
  ∀ g ∈ r.fields, g.name ∉ names → g.Leaves part

/-! ### Objects -/

section Objects

variable {fields : Json.Fields}

/-- A field takes the value under its name; a value under another name is passed over. -/
theorem readNamed_cons (name : String) (j : Json) (fields : Json.Fields) (p : Partial σ) :
    r.readNamed (Draft.ofFields ((name, j) :: fields)) p =
      match Field.named? r.fields name with
      | some f => p.take f (Draft.ofJson j) >>= r.readNamed (Draft.ofFields fields)
      | none => r.readNamed (Draft.ofFields fields) p := by
  rw [Draft.ofFields, readNamed, Draft.skip_ofJson]
  rfl

theorem readNamed_ofFields (fields : Json.Fields) (p : Partial σ) :
    r.readNamed (Draft.ofFields fields) p =
      Partial.run r.fields (fun _ _ s => s) (fields.map (Prod.map id Draft.ofJson)) p := by
  induction fields generalizing p with
  | nil => rfl
  | cons field fields ih =>
    obtain ⟨name, j⟩ := field
    rw [readNamed_cons, List.map_cons, Partial.run, List.foldlM_cons, Partial.step]
    cases hn : Field.named? r.fields name with
    | some f =>
      simp only [Prod.map, id, hn]
      exact congrArg (p.take f (Draft.ofJson j) >>= ·) (funext ih)
    | none =>
      simp only [Prod.map, id, hn]
      exact ih p

/-- An object is read as its fields are taken one by one; a record that must be complete takes all. -/
theorem read_object_eq_ok : r.read initial (Draft.ofJson (.object fields)) = .ok s ↔
    ∃ p, Partial.run r.fields (fun _ _ s => s) (fields.map (Prod.map id Draft.ofJson)) ⟨initial, []⟩ =
        .ok p ∧
      (r.complete → ∀ f ∈ r.fields, f.name ∈ p.seen) ∧ p.value = s := by
  rw [Draft.ofJson, read, readNamed_ofFields, Except.bind_eq_ok]
  refine exists_congr fun p => and_congr_right fun _ => ?_
  change (if r.complete then p.require r.fields >>= fun _ => .ok p.value else .ok p.value) = .ok s ↔ _
  split_ifs with hc
  · rw [Except.bind_eq_ok]
    constructor
    · rintro ⟨_, hrequired, hs⟩
      exact ⟨fun _ => Partial.require_eq_ok.mp hrequired, Except.ok.inj hs⟩
    · rintro ⟨hseen, rfl⟩
      exact ⟨(), Partial.require_eq_ok.mpr (hseen hc), rfl⟩
  · exact ⟨fun hs => ⟨fun h => absurd h hc, Except.ok.inj hs⟩, fun h => congrArg _ h.2⟩

variable (hd : Field.Distinct r.fields)

include hd

/-- Fields that are given one value that they can read, or nothing where that may be, make an object that
can be read. -/
theorem exists_read_object (fits : ∀ f ∈ r.fields, (given f.keys fields = [] ∧ ¬ r.complete) ∨
      ∃ j, given f.keys fields = [j] ∧ ∀ s, ∃ s', f.read (Draft.ofJson j) s = .ok s') :
    ∃ s, r.read initial (Draft.ofJson (.object fields)) = .ok s := by
  obtain ⟨p, hp⟩ : ∃ p, Partial.run r.fields (fun _ _ s => s)
      (fields.map (Prod.map id Draft.ofJson)) ⟨initial, []⟩ = .ok p :=
    Partial.exists_run_map hd fun f hf => (fits f hf).imp And.left
      fun ⟨j, hone, hread⟩ => ⟨j, hone, List.not_mem_nil, hread⟩
  refine ⟨p.value, read_object_eq_ok.mpr ⟨p, hp, fun hc f hf => ?_, rfl⟩⟩
  obtain ⟨j, hone, -⟩ := (fits f hf).resolve_left fun hnone => hnone.2 hc
  exact (Partial.mem_seen_of_run_map hd hp hf List.not_mem_nil).mpr (hone ▸ List.cons_ne_nil j [])

variable (h : r.read initial (Draft.ofJson (.object fields)) = .ok s)

include h

theorem given_of_complete (hc : r.complete) {f : Field Draft σ} (hf : f ∈ r.fields) :
    given f.keys fields ≠ [] := by
  obtain ⟨p, hp, hseen, -⟩ := read_object_eq_ok.mp h
  exact (Partial.mem_seen_of_run_map hd hp hf List.not_mem_nil).mp (hseen hc f hf)

/-- A part that only one field changes is as that field makes it of its one value, or as it was. -/
theorem part_of_object {f : Field Draft σ} (hf : f ∈ r.fields) (part : σ → α) {parse : Draft → Reads α}
    (makes : f.Makes parse part) (changed : r.ChangedBy [f.name] part) :
    (given f.keys fields = [] ∧ part s = part initial) ∨
      ∃ j, given f.keys fields = [j] ∧ parse (Draft.ofJson j) = .ok (part s) := by
  obtain ⟨p, hp, -, rfl⟩ := read_object_eq_ok.mp h
  exact Partial.part_of_run_map hd hp hf part makes changed fun _ _ _ => rfl

/-- In a record that must be complete the field has its one value. -/
theorem part_of_complete (hc : r.complete) {f : Field Draft σ} (hf : f ∈ r.fields) (part : σ → α)
    {parse : Draft → Reads α} (makes : f.Makes parse part) (changed : r.ChangedBy [f.name] part) :
    ∃ j, given f.keys fields = [j] ∧ parse (Draft.ofJson j) = .ok (part s) :=
  (part_of_object hd h hf part makes changed).resolve_left fun hnone =>
    given_of_complete hd h hc hf hnone.1

end Objects

/-! ### Arrays -/

section Arrays

variable {items : List Json}

/-- The items of an array under the names of the fields that they are for. -/
def spelled (r : Record σ) (items : List Json) : Json.Fields := (r.fields.map Field.name).zip items

/-- From where an array is read on, it is read as the named fields that are left. -/
theorem readInOrder_eq {fs : List (Field Draft σ)}
    (hfs : ∀ f ∈ fs, Field.named? r.fields f.name = some f) (hnodup : (fs.map Field.name).Nodup)
    (hlength : items.length ≤ fs.length) (hcomplete : r.complete → fs.length ≤ items.length) (n : Nat)
    {p : Partial σ} (hnew : ∀ f ∈ fs, f.name ∉ p.seen) :
    r.readInOrder .closed n fs (Draft.ofItems items) p.value =
      Partial.value <$> r.readNamed (Draft.ofFields ((fs.map Field.name).zip items)) p := by
  induction items generalizing fs n p with
  | nil =>
    cases fs with
    | nil => rfl
    | cons f fs =>
      have hc : ¬ r.complete := fun hc => absurd (hcomplete hc) (by simp)
      rw [Draft.ofItems, readInOrder]
      simp only [hc]
      rfl
  | cons j items ih =>
    cases fs with
    | nil => exact absurd hlength (by simp)
    | cons f fs =>
      have htake : p.take f (Draft.ofJson j) =
          (fun s => ⟨s, f.name :: p.seen⟩) <$> f.read (Draft.ofJson j) p.value := by
        have hunseen : p.seen.contains f.name = false := by simpa using hnew f List.mem_cons_self
        rw [Partial.take, hunseen]
        rfl
      rw [Draft.ofItems, readInOrder, List.map_cons, List.zip_cons_cons, readNamed_cons,
        hfs f List.mem_cons_self]
      simp only [htake]
      obtain ⟨hother, hnodup⟩ := List.nodup_cons.mp hnodup
      cases f.read (Draft.ofJson j) p.value with
      | error e => rfl
      | ok s =>
        refine ih (fun g hg => hfs g (List.mem_cons_of_mem f hg)) hnodup
          (Nat.le_of_succ_le_succ hlength) (fun hc => Nat.le_of_succ_le_succ (hcomplete hc)) (n + 1)
          (p := ⟨s, f.name :: p.seen⟩) fun g hg hseen => ?_
        rcases List.mem_cons.mp hseen with hname | hseen
        · exact hother (hname ▸ List.mem_map_of_mem hg)
        · exact hnew g (List.mem_cons_of_mem f hg) hseen

/-- An array that is read has no more items than there are fields, and no fewer if all must be given. -/
theorem length_of_readInOrder {fs : List (Field Draft σ)} {n : Nat} {s s' : σ}
    (h : r.readInOrder .closed n fs (Draft.ofItems items) s = .ok s') :
    items.length ≤ fs.length ∧ (r.complete → fs.length ≤ items.length) := by
  induction items generalizing fs n s with
  | nil =>
    cases fs with
    | nil => exact ⟨Nat.le_refl _, fun _ => Nat.le_refl _⟩
    | cons f fs =>
      refine ⟨Nat.zero_le _, fun hc => ?_⟩
      rw [Draft.ofItems, readInOrder] at h
      simp only [hc, if_true] at h
      cases h
  | cons j items ih =>
    cases fs with
    | nil => cases h
    | cons f fs =>
      obtain ⟨s₁, -, h⟩ := Except.bind_eq_ok.mp h
      obtain ⟨hle, hge⟩ := ih h
      exact ⟨Nat.succ_le_succ hle, fun hc => Nat.succ_le_succ (hge hc)⟩

/-- The items of an array give something to all fields just if there is an item for each. -/
theorem spelled_iff (hd : Field.Distinct r.fields) :
    (∀ f ∈ r.fields, given f.keys (r.spelled items) ≠ []) ↔ r.fields.length ≤ items.length := by
  constructor
  · intro hall
    have hsubset : r.fields.map Field.name ⊆ (r.spelled items).map Prod.fst := by
      intro name hname
      obtain ⟨f, hf, rfl⟩ := List.mem_map.mp hname
      obtain ⟨j, hj⟩ := List.exists_mem_of_ne_nil _ (hall f hf)
      obtain ⟨key, hkey, hentry⟩ := Json.mem_given.mp hj
      obtain ⟨g, hg, rfl⟩ := List.mem_map.mp (List.of_mem_zip hentry).1
      rw [hd.eq_of_mem hf hg hkey g.name_mem_keys]
      exact List.mem_map_of_mem hentry
    have hle := hd.names_nodup.length_le_of_subset hsubset
    simp only [List.length_map, spelled, List.length_zip] at hle
    omega
  · intro hle f hf hnone
    have hnames : (r.spelled items).map Prod.fst = r.fields.map Field.name :=
      List.map_fst_zip (by simpa using hle)
    have hname : f.name ∈ (r.spelled items).map Prod.fst := hnames ▸ List.mem_map_of_mem hf
    obtain ⟨⟨_, j⟩, hentry, rfl⟩ := List.mem_map.mp hname
    have hgiven : j ∈ given f.keys (r.spelled items) := Json.mem_given.mpr ⟨_, f.name_mem_keys, hentry⟩
    exact absurd (hnone ▸ hgiven) List.not_mem_nil

/-- An array is read if it has no more items than there are fields, as the object that it spells. -/
theorem read_array_eq_ok (hd : Field.Distinct r.fields) :
    r.read initial (Draft.ofJson (.array items)) = .ok s ↔
      items.length ≤ r.fields.length ∧
        r.read initial (Draft.ofJson (.object (r.spelled items))) = .ok s := by
  have hnamed (f : Field Draft σ) (hf : f ∈ r.fields) : Field.named? r.fields f.name = some f :=
    hd.named?_eq_some.mpr ⟨hf, f.name_mem_keys⟩
  have hread (hle : items.length ≤ r.fields.length) (hge : r.complete → r.fields.length ≤ items.length) :
      r.read initial (Draft.ofJson (.array items)) = .ok s ↔ ∃ p,
        Partial.run r.fields (fun _ _ s => s) ((r.spelled items).map (Prod.map id Draft.ofJson))
          ⟨initial, []⟩ = .ok p ∧ p.value = s := by
    rw [Draft.ofJson, read, readInOrder_eq (p := ⟨initial, []⟩) hnamed hd.names_nodup hle hge 0
      fun _ _ => List.not_mem_nil, Except.map_eq_ok, readNamed_ofFields]
    rfl
  constructor
  · intro h
    obtain ⟨hle, hge⟩ := length_of_readInOrder h
    obtain ⟨p, hp, hs⟩ := (hread hle hge).mp h
    refine ⟨hle, read_object_eq_ok.mpr ⟨p, hp, fun hc f hf => ?_, hs⟩⟩
    exact (Partial.mem_seen_of_run_map hd hp hf List.not_mem_nil).mpr
      ((spelled_iff hd).mpr (hge hc) f hf)
  · rintro ⟨hle, h⟩
    obtain ⟨p, hp, -, hs⟩ := read_object_eq_ok.mp h
    have hge (hc : r.complete) : r.fields.length ≤ items.length :=
      (spelled_iff hd).mp fun _ => given_of_complete hd h hc
    exact (hread hle hge).mpr ⟨p, hp, hs⟩

end Arrays

end Record

end TunnelMap
