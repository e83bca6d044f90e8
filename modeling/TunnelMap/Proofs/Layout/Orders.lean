import TunnelMap.Proofs.Layout.Fit

/-! What the orders of a tuning come to. There is one for each edge, one for each node and one for
heat, which is the last. A layout of the graph has a link for each edge and a charge for each node,
so each order finds its entry and no entry is passed over: whatever numbers the layout had before,
afterwards it has those of the tuning. -/

namespace TunnelMap

section Lists

variable {α β : Type}

theorem modify_next (f : β → β) (done rest : List β) (y : β) :
    (done ++ y :: rest).modify done.length f = done ++ [f y] ++ rest := by
  induction done with
  | nil => rfl
  | cons d done ih => simpa using ih

/-- Entries that are changed in turn, each by the next of as many others. -/
theorem foldl_modify_zipIdx (f : α → β → β) (xs : List α) (done ys : List β)
    (h : ys.length = xs.length) :
    (xs.zipIdx done.length).foldl (fun ys p => ys.modify p.2 (f p.1)) (done ++ ys) =
      done ++ List.zipWith f xs ys := by
  induction xs generalizing done ys with
  | nil =>
    obtain rfl := List.eq_nil_of_length_eq_zero h
    rfl
  | cons x xs ih =>
    obtain ⟨y, ys, rfl⟩ := List.exists_cons_of_length_eq_add_one h
    have hrest := ih (done ++ [f x y]) ys (Nat.succ.inj h)
    rw [List.length_append, List.length_singleton] at hrest
    rw [List.zipIdx_cons, List.foldl_cons, modify_next, hrest, List.zipWith_cons_cons,
      List.append_assoc, List.singleton_append]

/-- Of two lists of one length, what only depends on the first. -/
theorem zipWith_fst {γ : Type} (f : α → γ) {xs : List α} {ys : List β} (h : ys.length = xs.length) :
    List.zipWith (fun x _ => f x) xs ys = xs.map f :=
  calc List.zipWith (fun x _ => f x) xs ys
    _ = (xs.zip ys).map (f ∘ Prod.fst) := (List.map_zip_eq_zipWith (f := f ∘ Prod.fst)).symm
    _ = xs.map f := by rw [← List.map_map, List.map_fst_zip (Nat.le_of_eq h.symm)]

end Lists

variable {R S : Type}

/-- Heat is ordered once, after all else. -/
theorem Tuning.orders_eq_concat (t : Tuning R) (g : Graph) :
    ∃ os, t.orders g = os ++ [.reheat] ∧ .reheat ∉ os := by
  refine ⟨_, (List.append_assoc ..).symm, fun h => ?_⟩
  rcases List.mem_append.mp h with h | h
  · obtain ⟨⟨e, i⟩, -, h⟩ := List.mem_map.mp h
    cases h
  · obtain ⟨⟨n, i⟩, -, h⟩ := List.mem_map.mp h
    cases h

/-- A link with the numbers that a tuning has for an edge. -/
def Link.tuned (t : Tuning R) (e : Edge) (k : Link R) : Link R := { k with params := t.linkFor e }

namespace Layout

variable [Scalar R]

/-- The orders to links, each to the link of its edge. -/
theorem foldl_setLink (l : Layout R S) (t : Tuning R) {es : List Edge}
    (h : l.links.length = es.length) :
    (es.zipIdx.map fun (e, i) => .setLink i (t.linkFor e)).foldl obey l =
      { l with links := List.zipWith (Link.tuned t) es l.links } := by
  rw [List.foldl_map]
  calc es.zipIdx.foldl (fun l p => obey l (.setLink p.2 (t.linkFor p.1))) l
    _ = { l with links := es.zipIdx.foldl (fun ks p => ks.modify p.2 (.tuned t p.1)) l.links } :=
      List.foldl_hom (fun links => { l with links }) fun _ _ => rfl
    _ = { l with links := List.zipWith (Link.tuned t) es l.links } :=
      congrArg (fun links => { l with links }) (foldl_modify_zipIdx (Link.tuned t) es [] l.links h)

/-- The orders to nodes. -/
theorem foldl_setCharge (l : Layout R S) (c : R) {ns : List Node}
    (h : l.charges.length = ns.length) :
    (ns.zipIdx.map fun (_, i) => .setCharge i c).foldl obey l =
      { l with charges := List.replicate ns.length c } := by
  have hcharges : ns.zipIdx.foldl (fun cs p => cs.modify p.2 fun _ => c) l.charges =
      List.replicate ns.length c := by
    rw [← List.map_const', ← zipWith_fst _ h]
    exact foldl_modify_zipIdx (fun _ _ => c) ns [] l.charges h
  rw [List.foldl_map]
  calc ns.zipIdx.foldl (fun l p => obey l (.setCharge p.2 c)) l
    _ = { l with charges := ns.zipIdx.foldl (fun cs p => cs.modify p.2 fun _ => c) l.charges } :=
      List.foldl_hom (fun charges => { l with charges }) fun cs p => by rw [obey, List.set_eq_modify]
    _ = { l with charges := List.replicate ns.length c } :=
      congrArg (fun charges => { l with charges }) hcharges

omit [Scalar R] in
theorem Fits.links_length [Precision R S] {l : Layout R S} {g : Graph} (h : l.Fits g) :
    l.links.length = g.edges.length := by
  simpa using congrArg List.length h.links

/-- A layout of a graph that is brought to a tuning has its numbers throughout and is hot; nothing
else of it changes. -/
theorem Fits.tune_eq [Precision R S] {l : Layout R S} {g : Graph} (h : l.Fits g) (t : Tuning R) :
    l.tune t g = { l with
      links := List.zipWith (Link.tuned t) g.edges l.links
      charges := List.replicate g.nodes.length t.charge
      alpha := 1 } := by
  let l' : Layout R S := { l with links := List.zipWith (Link.tuned t) g.edges l.links }
  have hcharges : l'.charges.length = g.nodes.length := h.staffed.charges
  rw [Layout.tune, Tuning.orders, List.foldl_append, List.foldl_append,
    l.foldl_setLink t h.links_length, l'.foldl_setCharge t.charge hcharges]
  rfl

/-! ### The numbers of a tuning -/

/-- The links have the numbers that a tuning has for their edges, and the nodes its charge. -/
structure Tuned (l : Layout R S) (t : Tuning R) (g : Graph) : Prop where
  params : l.links.map (·.params) = g.edges.map t.linkFor
  charges : l.charges = List.replicate g.nodes.length t.charge

omit [Scalar R] in
/-- What leaves links and charges as they were. -/
theorem Tuned.congr {l l' : Layout R S} {t : Tuning R} {g : Graph} (h : l.Tuned t g)
    (links : l'.links = l.links) (charges : l'.charges = l.charges) : l'.Tuned t g :=
  ⟨links ▸ h.params, charges ▸ h.charges⟩

theorem Fits.tuned_tune [Precision R S] {l : Layout R S} {g : Graph} (h : l.Fits g)
    (t : Tuning R) : (l.tune t g).Tuned t g := by
  rw [h.tune_eq t]
  refine ⟨?_, rfl⟩
  rw [List.map_zipWith]
  exact zipWith_fst t.linkFor h.links_length

end Layout

end TunnelMap
