import Mathlib.Data.List.Nodup
import TunnelMap.Graph.Build

/-! What a build comes to. Both of its loops take entries until an id is met that an entry
before had, so each ends at its first repeat, or else takes all entries in order. A repeated
node id comes before all faults of edges. Edges are looked at only if both their ends are there:
the others neither repeat an id nor claim one, and do not count for the places of those behind
them. -/

namespace TunnelMap

/-! ### First repeats -/

section FirstRepeat

variable {α κ : Type} {key : α → κ}

/-- The first element of a list whose key an element before it has. -/
def FirstRepeat (key : α → κ) (xs : List α) (x : α) : Prop :=
  ∃ before after, xs = before ++ x :: after ∧ (before.map key).Nodup ∧ key x ∈ before.map key

theorem nodup_snoc {ks : List κ} {k : κ} : (ks ++ [k]).Nodup ↔ k ∉ ks ∧ ks.Nodup := by
  rw [List.nodup_middle, List.append_nil, List.nodup_cons]

variable [DecidableEq κ]

/-- Looks for the first element whose key was seen before. -/
def firstRepeat? (key : α → κ) : (seen : List κ) → List α → Option α
  | _, [] => none
  | seen, x :: xs => if key x ∈ seen then some x else firstRepeat? key (seen ++ [key x]) xs

theorem firstRepeat?_eq_none {seen : List κ} {xs : List α} (hs : seen.Nodup) :
    firstRepeat? key seen xs = none ↔ (seen ++ xs.map key).Nodup := by
  induction xs generalizing seen with
  | nil => simpa [firstRepeat?] using hs
  | cons x xs ih =>
    simp only [firstRepeat?, List.map_cons]
    split_ifs with hx
    · simp [List.nodup_middle, hx]
    · rw [ih (nodup_snoc.mpr ⟨hx, hs⟩), List.append_assoc, List.singleton_append]

theorem firstRepeat_of_eq_some {before xs : List α} {x : α} (hb : (before.map key).Nodup)
    (h : firstRepeat? key (before.map key) xs = some x) : FirstRepeat key (before ++ xs) x := by
  induction xs generalizing before with
  | nil => simp [firstRepeat?] at h
  | cons y ys ih =>
    simp only [firstRepeat?] at h
    split_ifs at h with hy
    · obtain rfl : y = x := by simpa using h
      exact ⟨before, ys, rfl, hb, hy⟩
    · have hs : (before ++ [y]).map key = before.map key ++ [key y] := by simp
      rw [← hs] at h
      simpa using ih (by rw [hs]; exact nodup_snoc.mpr ⟨hy, hb⟩) h

/-- Keys are told apart, or there is a first repeat, which the search finds. -/
theorem firstRepeat?_cases (key : α → κ) (xs : List α) :
    ((xs.map key).Nodup ∧ firstRepeat? key [] xs = none) ∨
      (¬ (xs.map key).Nodup ∧ ∃ x, FirstRepeat key xs x ∧ firstRepeat? key [] xs = some x) := by
  have hn : firstRepeat? key [] xs = none ↔ (xs.map key).Nodup := firstRepeat?_eq_none List.nodup_nil
  cases h : firstRepeat? key [] xs with
  | none => exact .inl ⟨hn.mp h, rfl⟩
  | some x =>
    have hx : FirstRepeat key ([] ++ xs) x := firstRepeat_of_eq_some List.nodup_nil h
    exact .inr ⟨fun hk => by simp [hn.mpr hk] at h, x, hx, rfl⟩

end FirstRepeat

/-! ### Rolls -/

namespace Roll

variable {κ α : Type} {key : α → κ}

theorem ofList_nil (key : α → κ) : ofList key [] = empty := rfl

@[simp] theorem items_ofList (xs : List α) : (ofList key xs).items = xs := rfl

theorem add_ofList (xs : List α) (x : α) :
    (ofList key xs).add (key x) x = ofList key (xs ++ [x]) := by
  simp [add, ofList, List.zipIdx_append]

variable [DecidableEq κ]

theorem lookup_zipIdx (xs : List α) (id : κ) (n : Nat) :
    ((xs.zipIdx n).map fun (x, i) => (key x, i)).lookup id =
      (xs.findIdx? (key · = id)).map (· + n) := by
  induction xs generalizing n with
  | nil => rfl
  | cons x xs ih =>
    by_cases hx : key x = id
    · simp [List.findIdx?_cons, hx]
    · have hne : (id == key x) = false := by simpa using Ne.symm hx
      simp only [List.zipIdx_cons, List.map_cons, List.lookup_cons, hne, ih, List.findIdx?_cons, hx,
        decide_false, Option.map_map, Bool.false_eq_true, if_false]
      congr 1
      funext i
      simp only [Function.comp_apply]
      omega

/-- The table of a roll finds what a look through the entries finds. -/
theorem place?_ofList (xs : List α) (id : κ) :
    (ofList key xs).place? id = xs.findIdx? (key · = id) := by
  rw [place?, ofList, lookup_zipIdx]
  simp

/-- If no id repeats, the table has just the place of each entry under its id. -/
theorem place?_ofList_eq_some {xs : List α} (hk : (xs.map key).Nodup) {id : κ} {i : Nat} :
    (ofList key xs).place? id = some i ↔ ∃ x, xs[i]? = some x ∧ key x = id := by
  rw [place?_ofList, List.findIdx?_eq_some_iff_getElem]
  constructor
  · rintro ⟨hlt, hid, -⟩
    exact ⟨xs[i], List.getElem?_eq_getElem hlt, by simpa using hid⟩
  · rintro ⟨x, hx, rfl⟩
    obtain ⟨hlt, rfl⟩ := List.getElem?_eq_some_iff.mp hx
    refine ⟨hlt, by simp, fun j hj hid => ?_⟩
    have hjlt : j < (xs.map key).length := by rw [List.length_map]; omega
    have hsame : (xs.map key)[j]? = (xs.map key)[i]? := by
      rw [List.getElem?_map, List.getElem?_map, List.getElem?_eq_getElem (by omega), hx]
      simpa using hid
    exact absurd ((List.getElem?_inj hjlt hk).mp hsame) (by omega)

theorem place?_ofList_isSome {xs : List α} {id : κ} :
    ((ofList key xs).place? id).isSome ↔ id ∈ xs.map key := by
  rw [place?_ofList, List.findIdx?_isSome]
  simp [List.any_eq]

end Roll

/-! ### Nodes -/

/-- How many edges a notice says were dropped. -/
def Notice.dropped? : Notice → Option Nat
  | .edgesDropped n => some n
  | _ => none

/-- The node of an entry. -/
def NodeEntry.node (raw : NodeEntry) : Node := ⟨raw.id, raw.kind, raw.attrs⟩

namespace Graph

theorem takeNodes_eq (raws : List NodeEntry) (nodes : List Node) :
    takeNodes raws (.ofList (·.id) nodes) =
      match firstRepeat? (·.id) (nodes.map (·.id)) raws with
      | some raw => .error (.duplicateNode raw.id)
      | none => .ok (.ofList (·.id) (nodes ++ raws.map NodeEntry.node)) := by
  induction raws generalizing nodes with
  | nil => simp [takeNodes, firstRepeat?]
  | cons raw raws ih =>
    simp only [takeNodes, firstRepeat?, Roll.place?_ofList_isSome]
    split_ifs with h
    · rfl
    · have hadd : (Roll.ofList (·.id) nodes).add raw.id raw.node =
          .ofList (·.id) (nodes ++ [raw.node]) := Roll.add_ofList nodes raw.node
      rw [← NodeEntry.node, hadd, ih]
      simp [NodeEntry.node]

/-- A node by its id, with its place, among nodes that bring their ids along. -/
abbrev endOf? (nodes : List Node) (id : NodeId) : Option (Node × NodeIdx) :=
  Graph.end? (.ofList (·.id) nodes) id

theorem endOf?_eq_some {nodes : List Node} {id : NodeId} {n : Node} {i : NodeIdx}
    (h : endOf? nodes id = some (n, i)) : nodes[i]? = some n ∧ n.id = id := by
  simp only [end?, Option.bind_eq_bind, Option.bind_eq_some_iff, Option.pure_def, Option.some.injEq,
    Prod.mk.injEq] at h
  obtain ⟨j, hj, m, hm, rfl, rfl⟩ := h
  rw [Roll.place?_ofList] at hj
  obtain ⟨hlt, hid, -⟩ := List.findIdx?_eq_some_iff_getElem.mp hj
  obtain rfl : nodes[j] = m := Option.some.inj ((List.getElem?_eq_getElem hlt).symm.trans hm)
  exact ⟨hm, by simpa using hid⟩

theorem endOf?_isSome {nodes : List Node} {id : NodeId} :
    (endOf? nodes id).isSome ↔ id ∈ nodes.map (·.id) := by
  rw [← Roll.place?_ofList_isSome, endOf?, end?]
  cases hp : (Roll.ofList (·.id) nodes).place? id with
  | none => rfl
  | some i =>
    rw [Roll.place?_ofList] at hp
    obtain ⟨hlt, -, -⟩ := List.findIdx?_eq_some_iff_getElem.mp hp
    simp [hlt]

/-! ### Edges -/

/-- Both ends of an edge are among the nodes. -/
def Resolves (nodes : List NodeEntry) (raw : EdgeEntry) : Prop :=
  raw.source ∈ nodes.map (·.id) ∧ raw.target ∈ nodes.map (·.id)

instance (nodes : List NodeEntry) (raw : EdgeEntry) : Decidable (Resolves nodes raw) :=
  inferInstanceAs (Decidable (_ ∧ _))

/-- The edges whose ends are there, in order. -/
def resolved (nodes : List NodeEntry) (edges : List EdgeEntry) : List EdgeEntry :=
  edges.filter fun raw => Resolves nodes raw

/-- The edge of an entry among nodes, unless an end is not there. -/
def edgeOf? (nodes : List Node) (raw : EdgeEntry) : Option Edge := do
  let source ← endOf? nodes raw.source
  let target ← endOf? nodes raw.target
  return ⟨raw.id, source.2, target.2, (settleKind source.1.kind target.1.kind raw.kind).1, raw.attrs⟩

theorem edgeOf?_isSome {nodes : List NodeEntry} {raw : EdgeEntry} :
    (edgeOf? (nodes.map NodeEntry.node) raw).isSome ↔ Resolves nodes raw := by
  have hid : (nodes.map NodeEntry.node).map (·.id) = nodes.map (·.id) := by
    simp [NodeEntry.node, Function.comp_def]
  rw [Resolves, ← hid, ← endOf?_isSome, ← endOf?_isSome]
  cases h : endOf? (nodes.map NodeEntry.node) raw.source <;>
    cases h' : endOf? (nodes.map NodeEntry.node) raw.target <;> simp [edgeOf?, h, h']

theorem edgeOf?_eq_some {nodes : List Node} {raw : EdgeEntry} {e : Edge} :
    edgeOf? nodes raw = some e ↔
      ∃ s t, endOf? nodes raw.source = some s ∧ endOf? nodes raw.target = some t ∧
        e = ⟨raw.id, s.2, t.2, (settleKind s.1.kind t.1.kind raw.kind).1, raw.attrs⟩ := by
  simp only [edgeOf?, Option.bind_eq_bind, Option.bind_eq_some_iff, Option.pure_def,
    Option.some.injEq]
  grind

/-- What is said of an edge among nodes: that its kind had to give way. -/
def remarks (nodes : List Node) (raw : EdgeEntry) : List Notice :=
  match endOf? nodes raw.source, endOf? nodes raw.target with
  | some s, some t =>
    if (settleKind s.1.kind t.1.kind raw.kind).2 then [.peerIgnored raw.id] else []
  | _, _ => []

theorem edgeOf?_eq_none {nodes : List Node} {raw : EdgeEntry} :
    edgeOf? nodes raw = none ↔ endOf? nodes raw.source = none ∨ endOf? nodes raw.target = none := by
  cases hs : endOf? nodes raw.source <;> cases ht : endOf? nodes raw.target <;>
    simp [edgeOf?, hs, ht]

theorem takeEdges_cons_none {nodes : List Node} {raw : EdgeEntry} {raws : List EdgeEntry} {t : Taken}
    (h : edgeOf? nodes raw = none) :
    takeEdges (.ofList (·.id) nodes) (raw :: raws) t =
      takeEdges (.ofList (·.id) nodes) raws t.drop := by
  obtain hs | ht := edgeOf?_eq_none.mp h
  · simp [takeEdges, hs]
  · simp [takeEdges, ht]

theorem remarks_of_none {nodes : List Node} {raw : EdgeEntry} (h : edgeOf? nodes raw = none) :
    remarks nodes raw = [] := by
  obtain hs | ht := edgeOf?_eq_none.mp h
  · simp [remarks, hs]
  · simp [remarks, ht]

theorem takeEdges_cons_some {nodes : List Node} {raw : EdgeEntry} {raws : List EdgeEntry}
    {es : List Edge} {dropped : Nat} {notices : List Notice} {e : Edge}
    (h : edgeOf? nodes raw = some e) :
    takeEdges (.ofList (·.id) nodes) (raw :: raws) ⟨.ofList (·.id) es, dropped, notices⟩ =
      if raw.id ∈ es.map (·.id) then
        (⟨.ofList (·.id) es, dropped, notices⟩, some (.duplicateEdge raw.id))
      else takeEdges (.ofList (·.id) nodes) raws
        ⟨.ofList (·.id) (es ++ [e]), dropped, notices ++ remarks nodes raw⟩ := by
  obtain ⟨s, u, hs, hu, he⟩ := edgeOf?_eq_some.mp h
  have hadd : (Roll.ofList (·.id) es).add raw.id e = .ofList (·.id) (es ++ [e]) := by
    rw [← Roll.add_ofList, he]
  simp only [takeEdges, remarks, hs, hu, Roll.place?_ofList_isSome, Taken.add, ← he, hadd]
  split_ifs <;> simp

/-- The edges are taken up to a first repeat among those whose ends are there. -/
theorem takeEdges_of_repeat {nodes : List NodeEntry} {raws : List EdgeEntry} (es : List Edge)
    (dropped : Nat) (notices : List Notice) {raw : EdgeEntry}
    (h : firstRepeat? (·.id) (es.map (·.id)) (resolved nodes raws) = some raw) :
    (takeEdges (.ofList (·.id) (nodes.map NodeEntry.node)) raws
      ⟨.ofList (·.id) es, dropped, notices⟩).2 = some (.duplicateEdge raw.id) := by
  induction raws generalizing es dropped notices with
  | nil => simp [resolved, firstRepeat?] at h
  | cons r rs ih =>
    cases he : edgeOf? (nodes.map NodeEntry.node) r with
    | none =>
      have hr : ¬ Resolves nodes r := by simp [← edgeOf?_isSome, he]
      rw [takeEdges_cons_none he]
      exact ih _ _ _ (by simpa [resolved, hr] using h)
    | some e =>
      have hr : Resolves nodes r := by simp [← edgeOf?_isSome, he]
      have hid : e.id = r.id := by obtain ⟨_, _, _, _, rfl⟩ := edgeOf?_eq_some.mp he; rfl
      rw [takeEdges_cons_some he]
      simp only [resolved, List.filter_cons, hr, decide_true, if_true, firstRepeat?] at h
      split_ifs at h ⊢ with hm
      · simp_all
      · exact ih _ _ _ (by simpa [hid, resolved] using h)

theorem takeEdges_of_no_repeat {nodes : List NodeEntry} {raws : List EdgeEntry} (es : List Edge)
    (dropped : Nat) (notices : List Notice)
    (h : firstRepeat? (·.id) (es.map (·.id)) (resolved nodes raws) = none) :
    takeEdges (.ofList (·.id) (nodes.map NodeEntry.node)) raws
        ⟨.ofList (·.id) es, dropped, notices⟩ =
      (⟨.ofList (·.id) (es ++ raws.filterMap (edgeOf? (nodes.map NodeEntry.node))),
        dropped + (raws.length - (resolved nodes raws).length),
        notices ++ raws.flatMap (remarks (nodes.map NodeEntry.node))⟩, none) := by
  induction raws generalizing es dropped notices with
  | nil => simp [takeEdges, resolved]
  | cons r rs ih =>
    have hle : (resolved nodes rs).length ≤ rs.length := List.length_filter_le _ _
    cases he : edgeOf? (nodes.map NodeEntry.node) r with
    | none =>
      have hr : ¬ Resolves nodes r := by simp [← edgeOf?_isSome, he]
      have hcons : resolved nodes (r :: rs) = resolved nodes rs := by simp [resolved, hr]
      rw [takeEdges_cons_none he, Taken.drop, ih _ _ _ (by simpa [hcons] using h), hcons]
      simp [he, remarks_of_none he]
      omega
    | some e =>
      have hr : Resolves nodes r := by simp [← edgeOf?_isSome, he]
      have hcons : resolved nodes (r :: rs) = r :: resolved nodes rs := by simp [resolved, hr]
      have hid : e.id = r.id := by obtain ⟨_, _, _, _, rfl⟩ := edgeOf?_eq_some.mp he; rfl
      rw [hcons, firstRepeat?] at h
      split_ifs at h with hm
      rw [takeEdges_cons_some he, if_neg hm, ih _ _ _ (by simpa [hid] using h), hcons]
      simp [he]

/-- What an entry has to become among nodes: an edge between the places of its ends, whose kind
is that of the entry only between two interfaces. -/
structure Settles (nodes : List NodeEntry) (raw : EdgeEntry) (e : Edge) : Prop where
  id : e.id = raw.id
  attrs : e.attrs = raw.attrs
  ends : ∃ s t, nodes[e.source]? = some s ∧ s.id = raw.source ∧
    nodes[e.target]? = some t ∧ t.id = raw.target ∧
    e.kind = if s.kind = .host ∨ t.kind = .host then .spoke else raw.kind.getD .peer

theorem settleKind_fst (a b : NodeKind) (explicit : Option EdgeKind) :
    (settleKind a b explicit).1 = if a = .host ∨ b = .host then .spoke else explicit.getD .peer := by
  rcases explicit with _ | _ | _ <;> cases a <;> cases b <;> rfl

theorem entry_of_endOf? {nodes : List NodeEntry} {id : NodeId} {p : Node × NodeIdx}
    (h : endOf? (nodes.map NodeEntry.node) id = some p) :
    ∃ raw, nodes[p.2]? = some raw ∧ raw.id = id ∧ raw.kind = p.1.kind := by
  obtain ⟨hg, hid⟩ := endOf?_eq_some h
  obtain ⟨raw, hr, hn⟩ := List.getElem?_map .. ▸ hg |> Option.map_eq_some_iff.mp
  exact ⟨raw, hr, by rw [← hid, ← hn]; rfl, by rw [← hn]; rfl⟩

theorem settles_of_edgeOf? {nodes : List NodeEntry} {raw : EdgeEntry} {e : Edge}
    (h : edgeOf? (nodes.map NodeEntry.node) raw = some e) : Settles nodes raw e := by
  obtain ⟨s, t, hs, ht, rfl⟩ := edgeOf?_eq_some.mp h
  obtain ⟨a, ha, hsource, hka⟩ := entry_of_endOf? hs
  obtain ⟨b, hb, htarget, hkb⟩ := entry_of_endOf? ht
  exact ⟨rfl, rfl, a, b, ha, hsource, hb, htarget, by rw [settleKind_fst, hka, hkb]⟩

theorem forall₂_settles (nodes : List NodeEntry) (raws : List EdgeEntry) :
    List.Forall₂ (Settles nodes) (resolved nodes raws)
      (raws.filterMap (edgeOf? (nodes.map NodeEntry.node))) := by
  induction raws with
  | nil => exact .nil
  | cons r rs ih =>
    cases he : edgeOf? (nodes.map NodeEntry.node) r with
    | none =>
      have hr : ¬ Resolves nodes r := by simp [← edgeOf?_isSome, he]
      simpa [resolved, hr, he] using ih
    | some e =>
      have hr : Resolves nodes r := by simp [← edgeOf?_isSome, he]
      simpa [resolved, hr, he] using ⟨settles_of_edgeOf? he, ih⟩

/-! ### Outcomes -/

theorem remarks_dropped (nodes : List Node) (raw : EdgeEntry) :
    (remarks nodes raw).filterMap Notice.dropped? = [] := by
  unfold remarks
  split
  · split_ifs <;> rfl
  · rfl

theorem takeEdges_dropped (nodes : List Node) (raws : List EdgeEntry) (es : List Edge)
    (dropped : Nat) (notices : List Notice) :
    (takeEdges (.ofList (·.id) nodes) raws
        ⟨.ofList (·.id) es, dropped, notices⟩).1.notices.filterMap Notice.dropped? =
      notices.filterMap Notice.dropped? := by
  induction raws generalizing es dropped notices with
  | nil => rfl
  | cons r rs ih =>
    cases he : edgeOf? nodes r with
    | none => rw [takeEdges_cons_none he, Taken.drop, ih]
    | some e =>
      rw [takeEdges_cons_some he]
      split_ifs
      · rfl
      · rw [ih]; simp [remarks_dropped]

theorem build_of_repeated_node {nodes : List NodeEntry} {raw : NodeEntry}
    (h : firstRepeat? (·.id) [] nodes = some raw) (edges : List EdgeEntry) :
    build nodes edges = ⟨[], .error (.duplicateNode raw.id)⟩ := by
  rw [build, ← Roll.ofList_nil Node.id, takeNodes_eq]
  simp [h]

theorem build_of_repeated_edge {nodes : List NodeEntry} {edges : List EdgeEntry} {raw : EdgeEntry}
    (hn : firstRepeat? (·.id) [] nodes = none)
    (h : firstRepeat? (·.id) [] (resolved nodes edges) = some raw) :
    (build nodes edges).result = .error (.duplicateEdge raw.id) ∧
      (build nodes edges).notices.filterMap Notice.dropped? = [] := by
  have he := takeEdges_of_repeat [] 0 [] h
  have hd := takeEdges_dropped (nodes.map NodeEntry.node) edges [] 0 []
  rw [build, ← Roll.ofList_nil Node.id, takeNodes_eq, ← Roll.ofList_nil Edge.id]
  simp only [List.map_nil, hn, List.nil_append]
  generalize takeEdges (.ofList (·.id) (nodes.map NodeEntry.node)) edges _ = taken at he hd
  obtain ⟨t, fault⟩ := taken
  obtain rfl : fault = some (.duplicateEdge raw.id) := he
  exact ⟨rfl, hd⟩

theorem build_of_no_repeat {nodes : List NodeEntry} {edges : List EdgeEntry}
    (hn : firstRepeat? (·.id) [] nodes = none)
    (h : firstRepeat? (·.id) [] (resolved nodes edges) = none) :
    build nodes edges =
      ⟨edges.flatMap (remarks (nodes.map NodeEntry.node)) ++
          (if edges.length - (resolved nodes edges).length = 0 then []
            else [.edgesDropped (edges.length - (resolved nodes edges).length)]),
        .ok (ofParts (nodes.map NodeEntry.node)
          (edges.filterMap (edgeOf? (nodes.map NodeEntry.node))))⟩ := by
  rw [build, ← Roll.ofList_nil Node.id, takeNodes_eq, ← Roll.ofList_nil Edge.id]
  simp only [List.map_nil, hn, List.nil_append]
  rw [takeEdges_of_no_repeat [] 0 [] h, List.nil_append, List.nil_append, Nat.zero_add]
  rfl

/-- A build succeeds just if no id repeats, and then leaves nothing open. -/
theorem build_ok_iff {nodes : List NodeEntry} {edges : List EdgeEntry} {g : Graph} :
    (build nodes edges).result = .ok g ↔
      (nodes.map (·.id)).Nodup ∧ ((resolved nodes edges).map (·.id)).Nodup ∧
        g = ofParts (nodes.map NodeEntry.node)
          (edges.filterMap (edgeOf? (nodes.map NodeEntry.node))) := by
  rcases firstRepeat?_cases (·.id) nodes with ⟨hn, hn'⟩ | ⟨hn, raw, -, hf⟩
  · rcases firstRepeat?_cases (·.id) (resolved nodes edges) with ⟨he, he'⟩ | ⟨he, raw, -, hf⟩
    · simp [build_of_no_repeat hn' he', hn, he, eq_comm]
    · simp [(build_of_repeated_edge hn' hf).1, he]
  · simp [build_of_repeated_node hf, hn]

/-- What a build comes to. If a node id repeats, the first repeat is the fault, whatever the
edges are. Else, if the id of an edge whose ends are there repeats, the first repeat among those
is the fault. Else it comes to a graph of all nodes and of the edges whose ends are there, both in
order, and says how many edges it dropped, if any. -/
theorem build_outcome (nodes : List NodeEntry) (edges : List EdgeEntry) :
    (¬ (nodes.map (·.id)).Nodup →
      ∃ raw, FirstRepeat (·.id) nodes raw ∧
        build nodes edges = ⟨[], .error (.duplicateNode raw.id)⟩) ∧
    ((nodes.map (·.id)).Nodup → ¬ ((resolved nodes edges).map (·.id)).Nodup →
      ∃ raw, FirstRepeat (·.id) (resolved nodes edges) raw ∧
        (build nodes edges).result = .error (.duplicateEdge raw.id) ∧
        (build nodes edges).notices.filterMap Notice.dropped? = []) ∧
    ((nodes.map (·.id)).Nodup → ((resolved nodes edges).map (·.id)).Nodup →
      ∃ g, (build nodes edges).result = .ok g ∧
        g.nodes = nodes.map NodeEntry.node ∧
        List.Forall₂ (Settles nodes) (resolved nodes edges) g.edges ∧
        (build nodes edges).notices.filterMap Notice.dropped? =
          if g.edges.length < edges.length then [edges.length - g.edges.length] else []) := by
  refine ⟨fun hn => ?_, fun hn he => ?_, fun hn he => ?_⟩
  · obtain ⟨h, -⟩ | ⟨-, raw, hr, hf⟩ := firstRepeat?_cases (·.id) nodes
    · exact absurd h hn
    · exact ⟨raw, hr, build_of_repeated_node hf edges⟩
  · have hn' := (firstRepeat?_eq_none List.nodup_nil).mpr hn
    obtain ⟨h, -⟩ | ⟨-, raw, hr, hf⟩ := firstRepeat?_cases (·.id) (resolved nodes edges)
    · exact absurd h he
    · exact ⟨raw, hr, build_of_repeated_edge hn' hf⟩
  · have hn' := (firstRepeat?_eq_none List.nodup_nil).mpr hn
    have he' := (firstRepeat?_eq_none List.nodup_nil).mpr he
    have hs := forall₂_settles nodes edges
    rw [build_of_no_repeat hn' he']
    refine ⟨_, rfl, rfl, hs, ?_⟩
    have hremarks : (edges.flatMap (remarks (nodes.map NodeEntry.node))).filterMap
        Notice.dropped? = [] := by
      simp [List.filterMap_flatMap, remarks_dropped]
    have hlen : (resolved nodes edges).length ≤ edges.length := List.length_filter_le _ _
    simp only [List.filterMap_append, hremarks, List.nil_append, ofParts, ← hs.length_eq]
    split_ifs
    · omega
    · rfl
    · rfl
    · omega

end Graph

end TunnelMap
