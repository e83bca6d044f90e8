import TunnelMap.Proofs.View.Run

/-! What the pointer holds. A press takes a node that is near, and a node that is near is one of the
graph. From then on the graph stays, or else the pointer lets go. A drag is marked as going on in a field
of its own; the mark and the node are only ever written together, so each tells the other. -/

namespace TunnelMap

variable {R S : Type} [Scalar R] [Engine S] [Precision R S]

omit [Scalar R] in
/-- A choice that takes each next entry or leaves it ends with an entry. -/
theorem mem_of_foldl_choice {α : Type} {choose : Option α → α → Option α}
    (hchoose : ∀ best x, choose best x = some x ∨ choose best x = best) {xs : List α}
    {best : Option α} {r : α} (h : xs.foldl choose best = some r) : r ∈ xs ∨ best = some r := by
  induction xs generalizing best with
  | nil => exact .inr h
  | cons x xs ih =>
    rcases ih h with hmem | hnext
    · exact .inl (List.mem_cons_of_mem x hmem)
    · rcases hchoose best x with htaken | hleft
      · obtain rfl := Option.some.inj (htaken.symm.trans hnext)
        exact .inl List.mem_cons_self
      · exact .inr (hleft.symm.trans hnext)

theorem mem_of_nearest {found : List (Nat × R)} {i : Nat} (h : nearest found = some i) :
    ∃ d, (i, d) ∈ found := by
  obtain ⟨⟨i, d⟩, hd, rfl⟩ := Option.map_eq_some_iff.mp h
  refine ⟨d, (mem_of_foldl_choice (fun best c => ?_) hd).resolve_right nofun⟩
  cases best with
  | none => exact .inl rfl
  | some b =>
    dsimp only
    split_ifs
    · exact .inl rfl
    · exact .inr rfl

namespace View

omit [Engine S] [Precision R S] in
theorem nodeAt?_lt {v : View R S} {p : Point R} {i : NodeIdx} (h : v.nodeAt? p = some i) :
    i < v.graph.nodes.length := by
  obtain ⟨d, hd⟩ := mem_of_nearest h
  obtain ⟨⟨n, j⟩, hn, hj⟩ := List.mem_filterMap.mp hd
  obtain ⟨q, -, hq⟩ := Option.bind_eq_some_iff.mp hj
  dsimp only at hq
  split_ifs at hq
  obtain ⟨rfl, -⟩ := Prod.mk.inj (Option.some.inj hq)
  exact (List.getElem?_eq_some_iff.mp (List.mem_zipIdx_iff_getElem?.mp hn)).1

/-- A drag goes on just if it has a node, and that is one of the graph. -/
structure Grips (v : View R S) : Prop where
  active : v.drag.active = v.drag.node.isSome
  node_lt : ∀ i, v.drag.node = some i → i < v.graph.nodes.length

omit [Engine S] [Precision R S] in
theorem grips_of_idle {v : View R S} (h : v.drag = .idle) : v.Grips where
  active := by simp [h]
  node_lt := by simp [h]

omit [Scalar R] [Engine S] [Precision R S] in
/-- A drag that goes on holds a node. -/
theorem Grips.exists_holds {v : View R S} (h : v.Grips) (hd : v.drag.active) : ∃ i, v.Holds i := by
  obtain ⟨i, hi⟩ := Option.isSome_iff_exists.mp (h.active ▸ hd)
  exact ⟨i, hd, hi⟩

theorem Yields.grips {v w : View R S} {op : Operation R S} (h : v.Yields op w) (hv : v.Grips) :
    w.Grips := by
  cases h with
  | grip hnear =>
    refine ⟨rfl, fun i hi => ?_⟩
    obtain rfl := Option.some.inj hi
    exact nodeAt?_lt hnear
  | lift => exact grips_of_idle rfl
  | exit => exact grips_of_idle rfl
  | replace => exact grips_of_idle rfl
  | _ => exact ⟨hv.active, hv.node_lt⟩

theorem Reachable.grips {v : View R S} (h : v.Reachable) : v.Grips := by
  induction h with
  | start _ hs =>
    obtain ⟨sizes, -, hv, -⟩ := start?_eq_some hs
    exact grips_of_idle (by rw [hv])
  | perform _ _ ho ih => exact (perform?_yields ho).grips ih

end View

end TunnelMap
