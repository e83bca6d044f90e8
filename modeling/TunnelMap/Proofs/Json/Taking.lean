import Mathlib.Data.List.Nodup
import TunnelMap.Json.Record
import TunnelMap.Proofs.Json.Whole

/-! Fields that are taken one by one, in the order of a text. No key goes for two fields, so whatever the
order, a field meets just the values that are given under its own names, and it takes no second one. What
becomes of a part of the value that only one field changes is therefore settled by the values of that
field alone. -/

namespace TunnelMap

theorem Except.bind_eq_ok {ε α β : Type} {x : Except ε α} {f : α → Except ε β} {b : β} :
    x >>= f = .ok b ↔ ∃ a, x = .ok a ∧ f a = .ok b := by
  cases x with
  | error e => exact ⟨nofun, nofun⟩
  | ok a => exact ⟨fun h => ⟨a, rfl, h⟩, fun ⟨_, ha, h⟩ => Except.ok.inj ha ▸ h⟩

theorem Except.map_eq_ok {ε α β : Type} {x : Except ε α} {f : α → β} {b : β} :
    f <$> x = .ok b ↔ ∃ a, x = .ok a ∧ f a = b := by
  cases x with
  | error e => exact ⟨nofun, nofun⟩
  | ok a => exact ⟨fun h => ⟨a, rfl, Except.ok.inj h⟩, fun ⟨_, ha, h⟩ => Except.ok.inj ha ▸ congrArg _ h⟩

open Json (given others)

variable {source σ α : Type}

namespace Field

/-- All names of a field. -/
def keys (f : Field source σ) : List String := f.name :: f.aliases

/-- No key goes for two fields. -/
def Distinct (table : List (Field source σ)) : Prop := (table.flatMap keys).Nodup

/-- Whatever is read does not change a part of the value. -/
def Leaves (f : Field source σ) (part : σ → α) : Prop :=
  ∀ v s s', f.read v s = .ok s' → part s' = part s

/-- What is read makes a part of the value by a reader of its own. -/
def Makes (f : Field source σ) (parse : source → Reads α) (part : σ → α) : Prop :=
  ∀ v s s', f.read v s = .ok s' → parse v = .ok (part s')

section Parse

variable {β : Type} {f : Field source σ} {parse : source → Reads β} {set : σ → β → σ}
  (hf : ∀ v s, f.read v s = do return set s (← parse v))

include hf

theorem read_eq_ok {v : source} {s s' : σ} :
    f.read v s = .ok s' ↔ ∃ b, parse v = .ok b ∧ set s b = s' := by
  rw [hf, Except.bind_eq_ok]
  exact exists_congr fun b => and_congr_right fun _ => ⟨Except.ok.inj, congrArg _⟩

theorem leaves_of_parse {part : σ → α} (h : ∀ s b, part (set s b) = part s) : f.Leaves part := by
  intro v s s' hread
  obtain ⟨b, -, rfl⟩ := (read_eq_ok hf).mp hread
  exact h s b

theorem makes_of_parse {part : σ → β} (h : ∀ s b, part (set s b) = b) : f.Makes parse part := by
  intro v s s' hread
  obtain ⟨b, hb, rfl⟩ := (read_eq_ok hf).mp hread
  rw [h, hb]

theorem exists_read_of_parse {v : source} {b : β} (h : parse v = .ok b) (s : σ) :
    ∃ s', f.read v s = .ok s' :=
  ⟨set s b, (read_eq_ok hf).mpr ⟨b, h, rfl⟩⟩

end Parse

theorem answers_iff {f : Field source σ} {key : String} : f.answers key ↔ key ∈ f.keys := by
  rw [answers, Bool.or_eq_true, beq_iff_eq, List.contains_iff_mem, keys, List.mem_cons, eq_comm]

theorem named?_eq_none {table : List (Field source σ)} {key : String} :
    named? table key = none ↔ key ∉ table.flatMap keys := by
  simp [named?, List.find?_eq_none, answers_iff]

theorem mem_of_named? {table : List (Field source σ)} {f : Field source σ} {key : String}
    (h : named? table key = some f) : f ∈ table ∧ key ∈ f.keys := by
  have hanswers := List.find?_some h
  exact ⟨List.mem_of_find?_eq_some h, answers_iff.mp hanswers⟩

namespace Distinct

variable {table : List (Field source σ)} (hd : Distinct table)

include hd

theorem eq_of_mem {f g : Field source σ} (hf : f ∈ table) (hg : g ∈ table) {key : String}
    (hkf : key ∈ f.keys) (hkg : key ∈ g.keys) : f = g := by
  have hpair := (List.nodup_flatMap.mp hd).2
  have hforth : table.Pairwise fun f g => key ∈ f.keys → key ∈ g.keys → f = g :=
    hpair.imp fun hdisjoint hkf hkg => absurd hkg (hdisjoint hkf)
  have hback : table.Pairwise (flip fun f g => key ∈ f.keys → key ∈ g.keys → f = g) :=
    hpair.imp fun hdisjoint hkg hkf => absurd hkg (hdisjoint hkf)
  exact hforth.forall_of_forall_of_flip (fun _ _ _ _ => rfl) hback hf hg hkf hkg

theorem named?_eq_some {f : Field source σ} {key : String} :
    named? table key = some f ↔ f ∈ table ∧ key ∈ f.keys := by
  refine ⟨mem_of_named?, fun ⟨hf, hkey⟩ => ?_⟩
  cases hn : named? table key with
  | none => exact absurd (List.mem_flatMap.mpr ⟨f, hf, hkey⟩) (named?_eq_none.mp hn)
  | some g =>
    obtain ⟨hg, hkg⟩ := mem_of_named? hn
    rw [hd.eq_of_mem hg hf hkg hkey]

end Distinct

theorem name_mem_keys (f : Field source σ) : f.name ∈ f.keys := List.mem_cons_self

end Field

namespace Partial

/-- Takes what is given under a key; under a key that no field goes by it is passed on. -/
def step (table : List (Field source σ)) (pass : String → source → σ → σ) (p : Partial σ)
    (entry : String × source) : Reads (Partial σ) :=
  match Field.named? table entry.1 with
  | some f => p.take f entry.2
  | none => .ok { p with value := pass entry.1 entry.2 p.value }

/-- Goes through what is given in turn. -/
def run (table : List (Field source σ)) (pass : String → source → σ → σ)
    (entries : List (String × source)) (p : Partial σ) : Reads (Partial σ) :=
  entries.foldlM (step table pass) p

variable {table : List (Field source σ)} {pass : String → source → σ → σ}
  {entries : List (String × source)} {p q : Partial σ}

theorem take_eq_ok {f : Field source σ} {v : source} :
    p.take f v = .ok q ↔
      f.name ∉ p.seen ∧ ∃ s, f.read v p.value = .ok s ∧ q = ⟨s, f.name :: p.seen⟩ := by
  unfold take
  split_ifs with hseen
  · exact ⟨nofun, fun h => absurd (List.contains_iff_mem.mp hseen) h.1⟩
  · rw [List.contains_iff_mem] at hseen
    simp only [hseen, not_false_iff, true_and, Except.bind_eq_ok]
    exact exists_congr fun s => and_congr_right fun _ => ⟨fun h => (Except.ok.inj h).symm, fun h => h ▸ rfl⟩

theorem run_cons {entry : String × source} {r : Partial σ} : run table pass (entry :: entries) p = .ok r ↔
    ∃ q, step table pass p entry = .ok q ∧ run table pass entries q = .ok r := by
  rw [run, List.foldlM_cons, Except.bind_eq_ok]
  rfl

section Step

variable (hd : Field.Distinct table)

include hd

theorem step_of_mem {f : Field source σ} (hf : f ∈ table) {entry : String × source}
    (hkey : entry.1 ∈ f.keys) : step table pass p entry = p.take f entry.2 := by
  rw [step, hd.named?_eq_some.mpr ⟨hf, hkey⟩]

omit hd in
theorem step_of_notMem {entry : String × source} (hkey : entry.1 ∉ table.flatMap Field.keys) :
    step table pass p entry = .ok { p with value := pass entry.1 entry.2 p.value } := by
  rw [step, Field.named?_eq_none.mpr hkey]

/-- Fields that are given nothing, or for the first time one value that they can read, all take it. -/
theorem exists_run (fits : ∀ f ∈ table, given f.keys entries = [] ∨
      ∃ v, given f.keys entries = [v] ∧ f.name ∉ p.seen ∧ ∀ s, ∃ s', f.read v s = .ok s') :
    ∃ q, run table pass entries p = .ok q := by
  induction entries generalizing p with
  | nil => exact ⟨p, rfl⟩
  | cons entry entries ih =>
    by_cases hkey : entry.1 ∈ table.flatMap Field.keys
    · obtain ⟨f, hf, hkf⟩ := List.mem_flatMap.mp hkey
      have hfits := fits f hf
      rw [Json.given_cons_of_mem hkf] at hfits
      obtain ⟨v, hone, hunseen, hread⟩ := hfits.resolve_left (List.cons_ne_nil _ _)
      obtain ⟨rfl, hlast⟩ := List.cons.inj hone
      obtain ⟨s, hs⟩ := hread p.value
      have htake : p.take f entry.2 = .ok ⟨s, f.name :: p.seen⟩ := take_eq_ok.mpr ⟨hunseen, s, hs, rfl⟩
      obtain ⟨q, hq⟩ := ih (p := ⟨s, f.name :: p.seen⟩) fun g hg => by
        by_cases hkg : entry.1 ∈ g.keys
        · exact .inl (hd.eq_of_mem hg hf hkg hkf ▸ hlast)
        · have hrest := fits g hg
          rw [Json.given_cons_of_notMem hkg] at hrest
          refine hrest.imp_right fun ⟨v, hv, hnew, hread⟩ => ⟨v, hv, fun hseen => ?_, hread⟩
          refine (List.mem_cons.mp hseen).elim (fun hname => hkg ?_) hnew
          rwa [hd.eq_of_mem hg hf g.name_mem_keys (hname ▸ f.name_mem_keys)]
      exact ⟨q, run_cons.mpr ⟨_, (step_of_mem hd hf hkf).trans htake, hq⟩⟩
    · obtain ⟨q, hq⟩ := ih (p := { p with value := pass entry.1 entry.2 p.value }) fun g hg => by
        have hrest := fits g hg
        rwa [Json.given_cons_of_notMem fun hkg => hkey (List.mem_flatMap.mpr ⟨g, hg, hkg⟩)] at hrest
      exact ⟨q, run_cons.mpr ⟨_, step_of_notMem hkey, hq⟩⟩

/-- The fields that were taken are those that were given a value. -/
theorem mem_seen_of_run (h : run table pass entries p = .ok q) {name : String} :
    name ∈ q.seen ↔ name ∈ p.seen ∨ ∃ f ∈ table, f.name = name ∧ given f.keys entries ≠ [] := by
  induction entries generalizing p with
  | nil =>
    obtain rfl : p = q := Except.ok.inj h
    simp
  | cons entry entries ih =>
    obtain ⟨m, hm, hrest⟩ := run_cons.mp h
    rw [ih hrest]
    by_cases hkey : entry.1 ∈ table.flatMap Field.keys
    · obtain ⟨f, hf, hkf⟩ := List.mem_flatMap.mp hkey
      rw [step_of_mem hd hf hkf, take_eq_ok] at hm
      obtain ⟨-, s, -, rfl⟩ := hm
      constructor
      · rintro (hseen | ⟨g, hg, hname, hgiven⟩)
        · rcases List.mem_cons.mp hseen with rfl | hseen
          · exact .inr ⟨f, hf, rfl, Json.given_cons_ne_nil.mpr (.inl hkf)⟩
          · exact .inl hseen
        · exact .inr ⟨g, hg, hname, Json.given_cons_ne_nil.mpr (.inr hgiven)⟩
      · rintro (hseen | ⟨g, hg, rfl, hgiven⟩)
        · exact .inl (List.mem_cons_of_mem _ hseen)
        · rcases Json.given_cons_ne_nil.mp hgiven with hkg | hgiven
          · exact .inl (hd.eq_of_mem hg hf hkg hkf ▸ List.mem_cons_self)
          · exact .inr ⟨g, hg, rfl, hgiven⟩
    · rw [step_of_notMem hkey] at hm
      obtain rfl := Except.ok.inj hm
      refine or_congr_right (exists_congr fun g => and_congr_right fun hg => ?_)
      rw [Json.given_cons_of_notMem fun hkg => hkey (List.mem_flatMap.mpr ⟨g, hg, hkg⟩)]

/-- A part of the value that only one field changes is as the one value of that field has it, or as it
was if the field is given none. -/
theorem part_of_run (h : run table pass entries p = .ok q) {f : Field source σ} (hf : f ∈ table)
    (part : σ → α) (leaves : ∀ g ∈ table, g ≠ f → g.Leaves part)
    (passes : ∀ key v s, part (pass key v s) = part s) :
    (given f.keys entries = [] ∧ part q.value = part p.value) ∨
      ∃ v s s', f.name ∉ p.seen ∧ given f.keys entries = [v] ∧ f.read v s = .ok s' ∧
        part q.value = part s' := by
  induction entries generalizing p with
  | nil =>
    obtain rfl : p = q := Except.ok.inj h
    exact .inl ⟨rfl, rfl⟩
  | cons entry entries ih =>
    obtain ⟨m, hm, hrest⟩ := run_cons.mp h
    by_cases hkf : entry.1 ∈ f.keys
    · rw [step_of_mem hd hf hkf, take_eq_ok] at hm
      obtain ⟨hunseen, s, hs, rfl⟩ := hm
      rcases ih hrest with ⟨hgiven, hpart⟩ | ⟨v, -, -, hunseen', -⟩
      · exact .inr ⟨entry.2, p.value, s, hunseen, by rw [Json.given_cons_of_mem hkf, hgiven], hs, hpart⟩
      · exact absurd List.mem_cons_self hunseen'
    · rw [Json.given_cons_of_notMem hkf]
      obtain ⟨hsame, hmore⟩ : part m.value = part p.value ∧ ∀ name ∈ p.seen, name ∈ m.seen := by
        by_cases hkey : entry.1 ∈ table.flatMap Field.keys
        · obtain ⟨g, hg, hkg⟩ := List.mem_flatMap.mp hkey
          rw [step_of_mem hd hg hkg, take_eq_ok] at hm
          obtain ⟨-, s, hs, rfl⟩ := hm
          have hne : g ≠ f := fun heq => hkf (heq ▸ hkg)
          exact ⟨leaves g hg hne _ _ _ hs, fun name => List.mem_cons_of_mem _⟩
        · rw [step_of_notMem hkey] at hm
          obtain rfl := Except.ok.inj hm
          exact ⟨passes .., fun _ => id⟩
      rcases ih hrest with ⟨hgiven, hpart⟩ | ⟨v, s, s', hunseen, hv⟩
      · exact .inl ⟨hgiven, hpart.trans hsame⟩
      · exact .inr ⟨v, s, s', fun hseen => hunseen (hmore _ hseen), hv⟩

/-- A part of the value that no field changes is what the passed values make of it in turn. -/
theorem passed_of_run (h : run table pass entries p = .ok q) (part : σ → α)
    (leaves : ∀ g ∈ table, g.Leaves part) (next : α → String × source → α)
    (passes : ∀ key v s, part (pass key v s) = next (part s) (key, v)) :
    part q.value = (others (table.flatMap Field.keys) entries).foldl next (part p.value) := by
  induction entries generalizing p with
  | nil =>
    obtain rfl : p = q := Except.ok.inj h
    rfl
  | cons entry entries ih =>
    obtain ⟨m, hm, hrest⟩ := run_cons.mp h
    by_cases hkey : entry.1 ∈ table.flatMap Field.keys
    · obtain ⟨g, hg, hkg⟩ := List.mem_flatMap.mp hkey
      rw [step_of_mem hd hg hkg, take_eq_ok] at hm
      obtain ⟨-, s, hs, rfl⟩ := hm
      rw [Json.others_cons_of_mem hkey, ih hrest]
      exact congrArg (List.foldl next · _) (leaves g hg _ _ _ hs)
    · rw [step_of_notMem hkey] at hm
      obtain rfl := Except.ok.inj hm
      rw [Json.others_cons_of_notMem hkey, List.foldl_cons, ih hrest, passes]

/-- A part of the value that nothing changes is as it was. -/
theorem left_of_run (h : run table pass entries p = .ok q) (part : σ → α)
    (leaves : ∀ g ∈ table, g.Leaves part) (passes : ∀ key v s, part (pass key v s) = part s) :
    part q.value = part p.value := by
  rw [passed_of_run hd h part leaves (fun a _ => a) passes]
  exact List.foldl_fixed _

/-! ### Values of an object -/

variable {c : Json → source} {fields : Json.Fields}

theorem exists_run_map (fits : ∀ f ∈ table, given f.keys fields = [] ∨
      ∃ j, given f.keys fields = [j] ∧ f.name ∉ p.seen ∧ ∀ s, ∃ s', f.read (c j) s = .ok s') :
    ∃ q, run table pass (fields.map (Prod.map id c)) p = .ok q :=
  exists_run hd fun f hf => by
    rw [Json.given_map]
    rcases fits f hf with hnone | ⟨j, hone, hunseen, hread⟩
    · exact .inl (by rw [hnone, List.map_nil])
    · exact .inr ⟨c j, by rw [hone, List.map_singleton], hunseen, hread⟩

variable (h : run table pass (fields.map (Prod.map id c)) p = .ok q) {f : Field source σ} (hf : f ∈ table)

include h hf

/-- A field that was not taken before is taken just if it is given a value. -/
theorem mem_seen_of_run_map (hunseen : f.name ∉ p.seen) : f.name ∈ q.seen ↔ given f.keys fields ≠ [] := by
  rw [mem_seen_of_run hd h, or_iff_right hunseen]
  constructor
  · rintro ⟨g, hg, hname, hgiven⟩
    obtain rfl : g = f := hd.eq_of_mem hg hf g.name_mem_keys (hname ▸ f.name_mem_keys)
    rw [Json.given_map] at hgiven
    exact fun hnil => hgiven (by rw [hnil, List.map_nil])
  · intro hgiven
    refine ⟨f, hf, rfl, ?_⟩
    rw [Json.given_map]
    exact fun hnil => hgiven (List.map_eq_nil_iff.mp hnil)

/-- A part of the value that only one field changes is as that field makes it of its one value. -/
theorem part_of_run_map (part : σ → α) {parse : source → Reads α} (makes : f.Makes parse part)
    (leaves : ∀ g ∈ table, g.name ∉ [f.name] → g.Leaves part)
    (passes : ∀ key v s, part (pass key v s) = part s) :
    (given f.keys fields = [] ∧ part q.value = part p.value) ∨
      ∃ j, given f.keys fields = [j] ∧ parse (c j) = .ok (part q.value) := by
  have hothers (g : Field source σ) (hg : g ∈ table) (hne : g ≠ f) : g.Leaves part :=
    leaves g hg fun hname => hne (hd.eq_of_mem hg hf g.name_mem_keys
      (List.mem_singleton.mp hname ▸ f.name_mem_keys))
  rcases part_of_run hd h hf part hothers passes with
    ⟨hnone, hpart⟩ | ⟨v, s₁, s₂, -, hone, hread, hpart⟩
  · rw [Json.given_map] at hnone
    exact .inl ⟨List.map_eq_nil_iff.mp hnone, hpart⟩
  · rw [Json.given_map] at hone
    obtain ⟨j, hj, rfl⟩ := List.map_eq_singleton_iff.mp hone
    exact .inr ⟨j, hj, by rw [hpart, makes _ _ _ hread]⟩

end Step

end Partial

end TunnelMap
