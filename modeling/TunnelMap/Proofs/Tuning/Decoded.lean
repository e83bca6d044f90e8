import Mathlib.Data.Multiset.ZeroCons
import TunnelMap.Proofs.Json.Closed
import TunnelMap.Proofs.Snapshot.Values
import TunnelMap.Tuning.Reader

/-! What tunings are read as. A tuning may be given in part: a field that is given has the value that it is
given, and any other its standard value. A link is given whole, as an object with its two numbers or as an
array of them. What a tuning is read as is settled by the values under the names of its fields, so neither
their order nor anything under other names counts; and an array of its first fields says what the object
with these fields says. -/

namespace TunnelMap

open Json (given AtMostOne)

/-! ### Numbers and links -/

/-- A value that stands for a number. -/
def Json.Measures (j : Json) (x : Float) : Prop := ∃ n : Number, j = .number n ∧ n.toFloat = x

theorem Draft.readFloat_ofJson {j : Json} {x : Float} : (ofJson j).readFloat = .ok x ↔ j.Measures x := by
  cases j <;> simp [ofJson, readFloat, Json.Measures]

namespace LinkParams

/-- The names of the fields of a link, in order. -/
def names : List String := ["distance", "strength"]

/-- The fields of an object are those of a link: each of its numbers stands there once. -/
structure Decoded (fields : Json.Fields) (p : LinkParams Float) : Prop where
  distance : ∃ j, given ["distance"] fields = [j] ∧ j.Measures p.distance
  strength : ∃ j, given ["strength"] fields = [j] ∧ j.Measures p.strength

/-- A value that stands for a link: an object with its numbers, or an array of just the two. -/
def Stands (j : Json) (p : LinkParams Float) : Prop :=
  (∃ fields, j = .object fields ∧ Decoded fields p) ∨
    ∃ d s, j = .array [d, s] ∧ d.Measures p.distance ∧ s.Measures p.strength

variable {fields : Json.Fields} {p p' : LinkParams Float}

theorem distinct : Field.Distinct record.fields := by
  show names.Nodup
  decide

/-- Of a part of a link only the fields need a name that change it. -/
theorem changedBy {α : Type} {names : List String} {part : LinkParams Float → α}
    (distance : "distance" ∈ names ∨ ∀ p x, part { p with distance := x } = part p := by simp)
    (strength : "strength" ∈ names ∨ ∀ p x, part { p with strength := x } = part p := by simp) :
    record.ChangedBy names part := by
  intro g hg hname
  simp only [record, List.mem_cons, List.not_mem_nil, or_false] at hg
  rcases hg with rfl | rfl
  -- A field parses and then sets what it stands for, by definition.
  · exact Field.leaves_of_parse (fun _ _ => rfl) fun p _ => distance.resolve_left hname p _
  · exact Field.leaves_of_parse (fun _ _ => rfl) fun p _ => strength.resolve_left hname p _

theorem decoded_of_read (h : read (Draft.ofJson (.object fields)) = .ok p) : Decoded fields p where
  distance := by
    obtain ⟨j, hone, hj⟩ := Record.part_of_complete distinct h rfl List.mem_cons_self
      (fun p => p.distance) (Field.makes_of_parse (fun _ _ => rfl) fun _ _ => rfl) changedBy
    exact ⟨j, hone, Draft.readFloat_ofJson.mp hj⟩
  strength := by
    obtain ⟨j, hone, hj⟩ := Record.part_of_complete distinct h rfl
      (List.mem_cons_of_mem _ List.mem_cons_self) (fun p => p.strength)
      (Field.makes_of_parse (fun _ _ => rfl) fun _ _ => rfl) changedBy
    exact ⟨j, hone, Draft.readFloat_ofJson.mp hj⟩

theorem Decoded.eq (h : Decoded fields p) (h' : Decoded fields p') : p = p' := by
  obtain ⟨j, hj, n, rfl, hn⟩ := h.distance
  obtain ⟨j', hj', n', rfl, hn'⟩ := h'.distance
  obtain ⟨k, hk, m, rfl, hm⟩ := h.strength
  obtain ⟨k', hk', m', rfl, hm'⟩ := h'.strength
  obtain rfl := Json.number.inj (List.singleton_inj.mp (hj.symm.trans hj'))
  obtain rfl := Json.number.inj (List.singleton_inj.mp (hk.symm.trans hk'))
  obtain ⟨distance, strength⟩ := p
  obtain ⟨distance', strength'⟩ := p'
  simp only at hn hn' hm hm'
  rw [← hn, ← hn', ← hm, ← hm']

theorem read_of_decoded (h : Decoded fields p) : read (Draft.ofJson (.object fields)) = .ok p := by
  -- Some link is read, and since the fields settle all of it, there is just one that it can be.
  obtain ⟨p', hp'⟩ : ∃ p', read (Draft.ofJson (.object fields)) = .ok p' := by
    refine Record.exists_read_object distinct fun f hf => .inr ?_
    simp only [record, List.mem_cons, List.not_mem_nil, or_false] at hf
    rcases hf with rfl | rfl
    · obtain ⟨j, hone, hj⟩ := h.distance
      exact ⟨j, hone, Field.exists_read_of_parse (fun _ _ => rfl) (Draft.readFloat_ofJson.mpr hj)⟩
    · obtain ⟨j, hone, hj⟩ := h.strength
      exact ⟨j, hone, Field.exists_read_of_parse (fun _ _ => rfl) (Draft.readFloat_ofJson.mpr hj)⟩
  rw [h.eq (decoded_of_read hp')]
  exact hp'

/-- The two numbers of an array are those of the object with these numbers. -/
theorem decoded_pair {d s : Json} :
    Decoded (names.zip [d, s]) p ↔ d.Measures p.distance ∧ s.Measures p.strength := by
  constructor
  · rintro ⟨⟨j, hj, hdistance⟩, k, hk, hstrength⟩
    obtain rfl := List.singleton_inj.mp hj
    obtain rfl := List.singleton_inj.mp hk
    exact ⟨hdistance, hstrength⟩
  · rintro ⟨hdistance, hstrength⟩
    exact ⟨⟨d, rfl, hdistance⟩, s, rfl, hstrength⟩

/-- An array with the numbers of a link has two items. -/
theorem Decoded.of_array {items : List Json} (hlength : items.length ≤ 2)
    (h : Decoded (names.zip items) p) : ∃ d s, items = [d, s] := by
  match items with
  | [] =>
    obtain ⟨_, hnone, -⟩ := h.distance
    cases hnone
  | [_] =>
    obtain ⟨_, hnone, -⟩ := h.strength
    cases hnone
  | [d, s] => exact ⟨d, s, rfl⟩
  | _ :: _ :: _ :: _ => simp at hlength

/-- A link is read from just the values that stand for one. -/
theorem read_ofJson {j : Json} : read (Draft.ofJson j) = .ok p ↔ Stands j p := by
  cases j with
  | object fields =>
    constructor
    · exact fun h => .inl ⟨fields, rfl, decoded_of_read h⟩
    · rintro (⟨_, heq, h⟩ | ⟨_, _, heq, -⟩)
      · exact Json.object.inj heq ▸ read_of_decoded h
      · cases heq
  | array items =>
    have harray : read (Draft.ofJson (.array items)) = .ok p ↔
        items.length ≤ 2 ∧ read (Draft.ofJson (.object (names.zip items))) = .ok p :=
      Record.read_array_eq_ok distinct
    rw [harray]
    constructor
    · rintro ⟨hlength, h⟩
      obtain ⟨d, s, rfl⟩ := (decoded_of_read h).of_array hlength
      exact .inr ⟨d, s, rfl, decoded_pair.mp (decoded_of_read h)⟩
    · rintro (⟨_, heq, -⟩ | ⟨d, s, heq, h⟩)
      · cases heq
      · obtain rfl := Json.array.inj heq
        exact ⟨Nat.le_refl 2, read_of_decoded (decoded_pair.mpr h)⟩
  | _ => exact iff_of_false nofun (by simp [Stands])

/-! ### Other forms -/

/-- The same value, or a link in another form: as an array, or as an object with its numbers in any order
among others. -/
inductive Respelled : Json → Json → Prop
  | same (j : Json) : Respelled j j
  | moved {fields fields' : Json.Fields}
      (h : ∀ name ∈ names, (given [name] fields).Perm (given [name] fields')) :
      Respelled (.object fields) (.object fields')
  | named {d s : Json} {fields : Json.Fields} (hd : given ["distance"] fields = [d])
      (hs : given ["strength"] fields = [s]) : Respelled (.array [d, s]) (.object fields)
  | listed {d s : Json} {fields : Json.Fields} (hd : given ["distance"] fields = [d])
      (hs : given ["strength"] fields = [s]) : Respelled (.object fields) (.array [d, s])

namespace Respelled

variable {j j' : Json}

/-- A number has no other form. -/
theorem measures {x : Float} (h : Respelled j j') (hj : j.Measures x) : j'.Measures x := by
  obtain ⟨n, rfl, hn⟩ := hj
  cases h
  exact ⟨n, rfl, hn⟩

theorem symm (h : Respelled j j') : Respelled j' j := by
  cases h with
  | same => exact .same j
  | moved h => exact .moved fun name hname => (h name hname).symm
  | named hd hs => exact .listed hd hs
  | listed hd hs => exact .named hd hs

/-- A link stays the same in other forms. -/
theorem stands (h : Respelled j j') (hj : Stands j p) : Stands j' p := by
  cases h with
  | same => exact hj
  | moved h =>
    obtain ⟨_, heq, ⟨d, hd, hdistance⟩, s, hs, hstrength⟩ | ⟨_, _, heq, -⟩ := hj
    · obtain rfl := Json.object.inj heq
      have hd' := List.perm_singleton.mp (hd ▸ (h "distance" (by decide)).symm)
      have hs' := List.perm_singleton.mp (hs ▸ (h "strength" (by decide)).symm)
      exact .inl ⟨_, rfl, ⟨d, hd', hdistance⟩, s, hs', hstrength⟩
    · cases heq
  | named hd hs =>
    obtain ⟨_, heq, -⟩ | ⟨_, _, heq, hdistance, hstrength⟩ := hj
    · cases heq
    · obtain ⟨rfl, hrest⟩ := List.cons.inj (Json.array.inj heq)
      obtain rfl := List.singleton_inj.mp hrest
      exact .inl ⟨_, rfl, ⟨_, hd, hdistance⟩, _, hs, hstrength⟩
  | listed hd hs =>
    obtain ⟨_, heq, ⟨d, hd', hdistance⟩, s, hs', hstrength⟩ | ⟨_, _, heq, -⟩ := hj
    · obtain rfl := Json.object.inj heq
      obtain rfl := List.singleton_inj.mp (hd.symm.trans hd')
      obtain rfl := List.singleton_inj.mp (hs.symm.trans hs')
      exact .inr ⟨_, _, rfl, hdistance, hstrength⟩
    · cases heq

end Respelled

end LinkParams

/-! ### Given values -/

namespace Json

variable {α : Type} {stands : Json → α → Prop} {absent a : α} {js js' : List Json}

theorem AtMostOne.length_le (h : AtMostOne stands absent js a) : js.length ≤ 1 := by
  obtain ⟨rfl, -⟩ | ⟨j, rfl, -⟩ := h
  · exact Nat.zero_le 1
  · exact Nat.le_refl 1

theorem AtMostOne.exists_of_mem (h : AtMostOne stands absent js a) : ∀ j ∈ js, ∃ a, stands j a := by
  obtain ⟨rfl, -⟩ | ⟨k, rfl, hk⟩ := h
  · exact nofun
  · intro j hj
    exact ⟨a, List.mem_singleton.mp hj ▸ hk⟩

theorem exists_atMostOne (absent : α) (hlength : js.length ≤ 1) (h : ∀ j ∈ js, ∃ a, stands j a) :
    ∃ a, AtMostOne stands absent js a := by
  match js with
  | [] => exact ⟨absent, .inl ⟨rfl, rfl⟩⟩
  | [j] =>
    obtain ⟨a, ha⟩ := h j List.mem_cons_self
    exact ⟨a, .inr ⟨j, rfl, ha⟩⟩
  | _ :: _ :: _ => simp at hlength

/-- The same values in another order and in other forms stand for the same. -/
theorem AtMostOne.respelled (hstands : ∀ {j j'}, LinkParams.Respelled j j' → stands j a → stands j' a)
    (h : Multiset.Rel LinkParams.Respelled js js') (ha : AtMostOne stands absent js a) :
    AtMostOne stands absent js' a := by
  obtain ⟨rfl, ha⟩ | ⟨j, rfl, ha⟩ := ha
  · exact .inl ⟨(Multiset.coe_eq_zero js').mp (Multiset.rel_zero_left.mp h), ha⟩
  · rw [← Multiset.cons_coe] at h
    obtain ⟨j', ks, hj, hks, heq⟩ := Multiset.rel_cons_left.mp h
    rw [Multiset.rel_zero_left.mp hks] at heq
    exact .inr ⟨j', Multiset.coe_eq_singleton.mp heq, hstands hj ha⟩

theorem rel_of_forall₂ {r : Json → Json → Prop} (h : List.Forall₂ r js js') : Multiset.Rel r js js' := by
  induction h with
  | nil => exact .zero
  | cons hj _ ih => exact .cons hj ih

/-- Two lists of items that correspond give values that correspond. -/
theorem given_zip {r : Json → Json → Prop} (h : List.Forall₂ r js js') (names keys : List String) :
    List.Forall₂ r (given names (keys.zip js)) (given names (keys.zip js')) := by
  induction h generalizing keys with
  | nil => simp
  | cons hj _ ih =>
    cases keys with
    | nil => exact .nil
    | cons key keys =>
      simp only [List.zip_cons_cons]
      by_cases hkey : key ∈ names
      · rw [given_cons_of_mem hkey, given_cons_of_mem hkey]
        exact .cons hj (ih keys)
      · rw [given_cons_of_notMem hkey, given_cons_of_notMem hkey]
        exact ih keys

end Json

/-! ### Tunings -/

theorem Record.atMostOne_of_object {σ α : Type} {r : Record σ} {initial s : σ}
    {fields : Json.Fields} (hd : Field.Distinct r.fields)
    (h : r.read initial (Draft.ofJson (.object fields)) = .ok s) {f : Field Draft σ}
    (hf : f ∈ r.fields) (part : σ → α) {parse : Draft → Reads α} {stands : Json → α → Prop}
    (hparse : ∀ j a, parse (Draft.ofJson j) = .ok a ↔ stands j a) (makes : f.Makes parse part)
    (changed : r.ChangedBy [f.name] part) :
    AtMostOne stands (part initial) (given f.keys fields) (part s) := by
  refine (part_of_object hd h hf part makes changed).imp_right ?_
  rintro ⟨j, hone, hj⟩
  exact ⟨j, hone, (hparse _ _).mp hj⟩

namespace Tuning

/-- The names of the fields of a tuning, in order. -/
def names : List String := ["spoke", "peer", "charge", "alpha_decay", "alpha_min", "velocity_retention"]

/-- An object has nothing twice that a tuning knows, and what it has of that is of the right kind. -/
structure Acceptable (fields : Json.Fields) : Prop where
  once : ∀ name ∈ names, (given [name] fields).length ≤ 1
  links : ∀ name ∈ ["spoke", "peer"], ∀ j ∈ given [name] fields, ∃ p, LinkParams.Stands j p
  numbers : ∀ name ∈ ["charge", "alpha_decay", "alpha_min", "velocity_retention"],
    ∀ j ∈ given [name] fields, ∃ x, j.Measures x

/-- The fields of an object are those of a tuning: each has the value that it is given, or its standard
value if it is given none. -/
structure Decoded (fields : Json.Fields) (t : Tuning Float) : Prop where
  spoke : AtMostOne LinkParams.Stands (standard : Tuning Float).spoke (given ["spoke"] fields) t.spoke
  peer : AtMostOne LinkParams.Stands (standard : Tuning Float).peer (given ["peer"] fields) t.peer
  charge : AtMostOne Json.Measures (standard : Tuning Float).charge (given ["charge"] fields) t.charge
  alphaDecay : AtMostOne Json.Measures (standard : Tuning Float).alphaDecay (given ["alpha_decay"] fields)
    t.alphaDecay
  alphaMin : AtMostOne Json.Measures (standard : Tuning Float).alphaMin (given ["alpha_min"] fields)
    t.alphaMin
  velocityRetention : AtMostOne Json.Measures (standard : Tuning Float).velocityRetention
    (given ["velocity_retention"] fields) t.velocityRetention

variable {fields fields' : Json.Fields} {t t' : Tuning Float}

theorem distinct : Field.Distinct record.fields := by
  show names.Nodup
  decide

/-- Of a part of a tuning only the fields need a name that change it. -/
theorem changedBy {α : Type} {names : List String} {part : Tuning Float → α}
    (spoke : "spoke" ∈ names ∨ ∀ t p, part { t with spoke := p } = part t := by simp)
    (peer : "peer" ∈ names ∨ ∀ t p, part { t with peer := p } = part t := by simp)
    (charge : "charge" ∈ names ∨ ∀ t x, part { t with charge := x } = part t := by simp)
    (alphaDecay : "alpha_decay" ∈ names ∨ ∀ t x, part { t with alphaDecay := x } = part t := by simp)
    (alphaMin : "alpha_min" ∈ names ∨ ∀ t x, part { t with alphaMin := x } = part t := by simp)
    (velocityRetention : "velocity_retention" ∈ names ∨
      ∀ t x, part { t with velocityRetention := x } = part t := by simp) :
    record.ChangedBy names part := by
  intro g hg hname
  simp only [record, List.mem_cons, List.not_mem_nil, or_false] at hg
  rcases hg with rfl | rfl | rfl | rfl | rfl | rfl
  · exact Field.leaves_of_parse (fun _ _ => rfl) fun t _ => spoke.resolve_left hname t _
  · exact Field.leaves_of_parse (fun _ _ => rfl) fun t _ => peer.resolve_left hname t _
  · exact Field.leaves_of_parse (fun _ _ => rfl) fun t _ => charge.resolve_left hname t _
  · exact Field.leaves_of_parse (fun _ _ => rfl) fun t _ => alphaDecay.resolve_left hname t _
  · exact Field.leaves_of_parse (fun _ _ => rfl) fun t _ => alphaMin.resolve_left hname t _
  · exact Field.leaves_of_parse (fun _ _ => rfl) fun t _ => velocityRetention.resolve_left hname t _

theorem decoded_of_read (h : read (Draft.ofJson (.object fields)) = .ok t) : Decoded fields t where
  spoke := Record.atMostOne_of_object distinct h (List.mem_of_getElem? (i := 0) rfl) (fun t => t.spoke)
    (fun _ _ => LinkParams.read_ofJson) (Field.makes_of_parse (fun _ _ => rfl) fun _ _ => rfl) changedBy
  peer := Record.atMostOne_of_object distinct h (List.mem_of_getElem? (i := 1) rfl) (fun t => t.peer)
    (fun _ _ => LinkParams.read_ofJson) (Field.makes_of_parse (fun _ _ => rfl) fun _ _ => rfl) changedBy
  charge := Record.atMostOne_of_object distinct h (List.mem_of_getElem? (i := 2) rfl)
    (fun t => t.charge) (fun _ _ => Draft.readFloat_ofJson)
    (Field.makes_of_parse (fun _ _ => rfl) fun _ _ => rfl) changedBy
  alphaDecay := Record.atMostOne_of_object distinct h (List.mem_of_getElem? (i := 3) rfl)
    (fun t => t.alphaDecay) (fun _ _ => Draft.readFloat_ofJson)
    (Field.makes_of_parse (fun _ _ => rfl) fun _ _ => rfl) changedBy
  alphaMin := Record.atMostOne_of_object distinct h (List.mem_of_getElem? (i := 4) rfl)
    (fun t => t.alphaMin) (fun _ _ => Draft.readFloat_ofJson)
    (Field.makes_of_parse (fun _ _ => rfl) fun _ _ => rfl) changedBy
  velocityRetention := Record.atMostOne_of_object distinct h (List.mem_of_getElem? (i := 5) rfl)
    (fun t => t.velocityRetention) (fun _ _ => Draft.readFloat_ofJson)
    (Field.makes_of_parse (fun _ _ => rfl) fun _ _ => rfl) changedBy

theorem Decoded.eq (h : Decoded fields t) (h' : Decoded fields t') : t = t' := by
  have hspoke := AtMostOne.eq (fun _ _ => LinkParams.read_ofJson) h.spoke h'.spoke
  have hpeer := AtMostOne.eq (fun _ _ => LinkParams.read_ofJson) h.peer h'.peer
  have hcharge := AtMostOne.eq (fun _ _ => Draft.readFloat_ofJson) h.charge h'.charge
  have hdecay := AtMostOne.eq (fun _ _ => Draft.readFloat_ofJson) h.alphaDecay h'.alphaDecay
  have hmin := AtMostOne.eq (fun _ _ => Draft.readFloat_ofJson) h.alphaMin h'.alphaMin
  have hretention :=
    AtMostOne.eq (fun _ _ => Draft.readFloat_ofJson) h.velocityRetention h'.velocityRetention
  obtain ⟨spoke, peer, charge, alphaDecay, alphaMin, velocityRetention⟩ := t
  obtain ⟨spoke', peer', charge', alphaDecay', alphaMin', velocityRetention'⟩ := t'
  simp only at hspoke hpeer hcharge hdecay hmin hretention
  rw [hspoke, hpeer, hcharge, hdecay, hmin, hretention]

theorem read_of_decoded (h : Decoded fields t) : read (Draft.ofJson (.object fields)) = .ok t := by
  obtain ⟨t', ht'⟩ : ∃ t', read (Draft.ofJson (.object fields)) = .ok t' := by
    have partly {P Q : Prop} (hor : P ∨ Q) : P ∧ ¬ record.complete ∨ Q :=
      hor.imp_left fun hnone => ⟨hnone, nofun⟩
    refine Record.exists_read_object distinct fun f hf => partly ?_
    simp only [record, List.mem_cons, List.not_mem_nil, or_false] at hf
    rcases hf with rfl | rfl | rfl | rfl | rfl | rfl
    · exact h.spoke.imp fun j hj =>
        Field.exists_read_of_parse (fun _ _ => rfl) (LinkParams.read_ofJson.mpr hj)
    · exact h.peer.imp fun j hj =>
        Field.exists_read_of_parse (fun _ _ => rfl) (LinkParams.read_ofJson.mpr hj)
    · exact h.charge.imp fun j hj =>
        Field.exists_read_of_parse (fun _ _ => rfl) (Draft.readFloat_ofJson.mpr hj)
    · exact h.alphaDecay.imp fun j hj =>
        Field.exists_read_of_parse (fun _ _ => rfl) (Draft.readFloat_ofJson.mpr hj)
    · exact h.alphaMin.imp fun j hj =>
        Field.exists_read_of_parse (fun _ _ => rfl) (Draft.readFloat_ofJson.mpr hj)
    · exact h.velocityRetention.imp fun j hj =>
        Field.exists_read_of_parse (fun _ _ => rfl) (Draft.readFloat_ofJson.mpr hj)
  rw [h.eq (decoded_of_read ht')]
  exact ht'

theorem read_object_iff : read (Draft.ofJson (.object fields)) = .ok t ↔ Decoded fields t :=
  ⟨decoded_of_read, read_of_decoded⟩

/-- Fields that are acceptable are those of a tuning. -/
theorem exists_decoded_iff : (∃ t, Decoded fields t) ↔ Acceptable fields := by
  constructor
  · rintro ⟨t, h⟩
    refine ⟨?_, ?_, ?_⟩
    · simp only [names, List.forall_mem_cons, List.not_mem_nil, false_implies, implies_true, and_true]
      exact ⟨h.spoke.length_le, h.peer.length_le, h.charge.length_le, h.alphaDecay.length_le,
        h.alphaMin.length_le, h.velocityRetention.length_le⟩
    · simp only [List.forall_mem_cons, List.not_mem_nil, false_implies, implies_true, and_true]
      exact ⟨h.spoke.exists_of_mem, h.peer.exists_of_mem⟩
    · simp only [List.forall_mem_cons, List.not_mem_nil, false_implies, implies_true, and_true]
      exact ⟨h.charge.exists_of_mem, h.alphaDecay.exists_of_mem, h.alphaMin.exists_of_mem,
        h.velocityRetention.exists_of_mem⟩
  · intro h
    have link (name : String) (hname : name ∈ ["spoke", "peer"]) (absent : LinkParams Float) :
        ∃ p, AtMostOne LinkParams.Stands absent (given [name] fields) p := by
      refine Json.exists_atMostOne absent (h.once name ?_) (h.links name hname)
      exact List.mem_of_mem_take (i := 2) hname
    have number (name : String) (hname : name ∈ ["charge", "alpha_decay", "alpha_min", "velocity_retention"])
        (absent : Float) : ∃ x, AtMostOne Json.Measures absent (given [name] fields) x := by
      refine Json.exists_atMostOne absent (h.once name ?_) (h.numbers name hname)
      exact List.mem_of_mem_drop (i := 2) hname
    obtain ⟨spoke, hspoke⟩ := link "spoke" (by decide) (standard : Tuning Float).spoke
    obtain ⟨peer, hpeer⟩ := link "peer" (by decide) (standard : Tuning Float).peer
    obtain ⟨charge, hcharge⟩ := number "charge" (by decide) (standard : Tuning Float).charge
    obtain ⟨decay, hdecay⟩ := number "alpha_decay" (by decide) (standard : Tuning Float).alphaDecay
    obtain ⟨least, hleast⟩ := number "alpha_min" (by decide) (standard : Tuning Float).alphaMin
    obtain ⟨retention, hretention⟩ :=
      number "velocity_retention" (by decide) (standard : Tuning Float).velocityRetention
    exact ⟨⟨spoke, peer, charge, decay, least, retention⟩, hspoke, hpeer, hcharge, hdecay, hleast,
      hretention⟩

/-- Only what is given under the known names counts, in whatever order and form. -/
theorem Decoded.respelled
    (h : ∀ name ∈ names, Multiset.Rel LinkParams.Respelled (given [name] fields) (given [name] fields'))
    (ht : Decoded fields t) : Decoded fields' t where
  spoke := ht.spoke.respelled LinkParams.Respelled.stands (h "spoke" (by decide))
  peer := ht.peer.respelled LinkParams.Respelled.stands (h "peer" (by decide))
  charge := ht.charge.respelled LinkParams.Respelled.measures (h "charge" (by decide))
  alphaDecay := ht.alphaDecay.respelled LinkParams.Respelled.measures (h "alpha_decay" (by decide))
  alphaMin := ht.alphaMin.respelled LinkParams.Respelled.measures (h "alpha_min" (by decide))
  velocityRetention :=
    ht.velocityRetention.respelled LinkParams.Respelled.measures (h "velocity_retention" (by decide))

theorem decoded_respelled
    (h : ∀ name ∈ names, Multiset.Rel LinkParams.Respelled (given [name] fields) (given [name] fields')) :
    Decoded fields t ↔ Decoded fields' t := by
  refine ⟨.respelled h, .respelled fun name hname => ?_⟩
  exact Multiset.rel_flip.mp ((h name hname).mono fun _ _ _ _ => LinkParams.Respelled.symm)

/-- An array of the first fields is read as the object with these fields. -/
theorem read_array_iff {items items' : List Json} (h : List.Forall₂ LinkParams.Respelled items items') :
    read (Draft.ofJson (.array items)) = .ok t ↔ items.length ≤ names.length ∧
      read (Draft.ofJson (.object (names.zip items'))) = .ok t := by
  have harray : read (Draft.ofJson (.array items)) = .ok t ↔ items.length ≤ names.length ∧
      read (Draft.ofJson (.object (names.zip items))) = .ok t := Record.read_array_eq_ok distinct
  rw [harray, read_object_iff, read_object_iff]
  exact and_congr_right fun _ => decoded_respelled fun name _ =>
    Json.rel_of_forall₂ (Json.given_zip h [name] names)

end Tuning

/-- An object is read as a tuning just if nothing that a tuning knows stands there twice, or is of the wrong
kind; what is given is then taken and what is not keeps its standard value. The order of the fields, fields
that are not known and the form of a link do not matter, and an array of the first fields is read as the
object with these fields. -/
theorem tuning_decoded (fields : Json.Fields) :
    ((∃ t, Tuning.read (Draft.ofJson (.object fields)) = .ok t) ↔ Tuning.Acceptable fields) ∧
    (∀ t, Tuning.read (Draft.ofJson (.object fields)) = .ok t ↔ Tuning.Decoded fields t) ∧
    (∀ fields', (∀ name ∈ Tuning.names,
        Multiset.Rel LinkParams.Respelled (given [name] fields) (given [name] fields')) → ∀ t,
      Tuning.read (Draft.ofJson (.object fields)) = .ok t ↔
        Tuning.read (Draft.ofJson (.object fields')) = .ok t) ∧
    ∀ items items', List.Forall₂ LinkParams.Respelled items items' → ∀ t,
      Tuning.read (Draft.ofJson (.array items)) = .ok t ↔
        items.length ≤ Tuning.names.length ∧
          Tuning.read (Draft.ofJson (.object (Tuning.names.zip items'))) = .ok t := by
  refine ⟨?_, fun t => Tuning.read_object_iff, fun fields' h t => ?_, fun items items' h t => ?_⟩
  · rw [← Tuning.exists_decoded_iff]
    exact exists_congr fun t => Tuning.read_object_iff
  · rw [Tuning.read_object_iff, Tuning.read_object_iff]
    exact Tuning.decoded_respelled h
  · exact Tuning.read_array_iff h

/-- A tuning of a link and a number among others, the same with the link as an array, and an array of two
links in both forms. -/
theorem tuning_decoded_in_both_forms :
    let number (n : Int) : Json := .number (.whole n)
    let link : Json := .object [("note", .null), ("strength", number 1), ("distance", number 9)]
    let fields : Json.Fields :=
      [("charge", number (-5)), ("x", .array [.null]), ("spoke", link), ("x", .bool true)]
    let fields' : Json.Fields := [("spoke", .array [number 9, number 1]), ("charge", number (-5))]
    let t : Tuning Float :=
      { (Tuning.standard : Tuning Float) with
        spoke := ⟨Float.ofInt 9, Float.ofInt 1⟩, charge := Float.ofInt (-5) }
    let items : List Json := [link, .array [number 9, number 1]]
    Tuning.Acceptable fields ∧
    Tuning.read (Draft.ofJson (.object fields)) = .ok t ∧
    Tuning.read (Draft.ofJson (.object fields')) = .ok t ∧
    Tuning.read (Draft.ofJson (.array items)) =
      .ok { (Tuning.standard : Tuning Float) with
        spoke := ⟨Float.ofInt 9, Float.ofInt 1⟩, peer := ⟨Float.ofInt 9, Float.ofInt 1⟩ } := by
  intro number link fields fields' t items
  obtain ⟨haccepted, hread, hmoved, harray⟩ := tuning_decoded fields
  have hother : LinkParams.Respelled link (.array [number 9, number 1]) := .listed rfl rfl
  have hlink : LinkParams.Stands link ⟨Float.ofInt 9, Float.ofInt 1⟩ :=
    .inl ⟨_, rfl, ⟨_, by rfl, .whole 9, rfl, rfl⟩, _, by rfl, .whole 1, rfl, rfl⟩
  have hobject := (hread t).mpr {
    spoke := .inr ⟨link, by rfl, hlink⟩
    peer := .inl ⟨by rfl, rfl⟩
    charge := .inr ⟨number (-5), by rfl, .whole (-5), rfl, rfl⟩
    alphaDecay := .inl ⟨by rfl, rfl⟩
    alphaMin := .inl ⟨by rfl, rfl⟩
    velocityRetention := .inl ⟨by rfl, rfl⟩ }
  refine ⟨haccepted.mp ⟨t, hobject⟩, hobject, (hmoved fields' (fun name hname => ?_) t).mp hobject, ?_⟩
  · simp only [Tuning.names, List.mem_cons, List.not_mem_nil, or_false] at hname
    rcases hname with rfl | rfl | rfl | rfl | rfl | rfl
    · exact Json.rel_of_forall₂ (.cons hother .nil)
    · exact Json.rel_of_forall₂ .nil
    · exact Json.rel_of_forall₂ (.cons (.same _) .nil)
    · exact Json.rel_of_forall₂ .nil
    · exact Json.rel_of_forall₂ .nil
    · exact Json.rel_of_forall₂ .nil
  · refine (harray items [.array [number 9, number 1], link] (.cons hother (.cons hother.symm .nil)) _).mpr
      ⟨by decide, Tuning.read_of_decoded ?_⟩
    exact {
      spoke := .inr ⟨_, by rfl, hother.stands hlink⟩
      peer := .inr ⟨link, by rfl, hlink⟩
      charge := .inl ⟨by rfl, rfl⟩
      alphaDecay := .inl ⟨by rfl, rfl⟩
      alphaMin := .inl ⟨by rfl, rfl⟩
      velocityRetention := .inl ⟨by rfl, rfl⟩ }

end TunnelMap
