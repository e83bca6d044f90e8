import TunnelMap.Layout.Body
import TunnelMap.Scalar.Binary

/-! The engine that maps run on. Its bodies repel each other. A sweep takes them in turn: each repels all
that come after it and then moves at once, so later ones meet it where it went. None of these steps
changes which body is whose, and an anchored body feels no force and does not move. -/

namespace TunnelMap

variable {S : Type}

/-! ### Forces -/

namespace Body

variable [Scalar S]

def mass : S := 10

/-- The strongest force along either axis. -/
def maxForce : S := 100

/-- The speed that a unit of acceleration gives in a unit of time. -/
def pace : S := 3000

def limit (f : S) : S := Scalar.min (Scalar.max f (-maxForce)) maxForce

/-- Adds a force to the acceleration, unless the body is anchored. -/
def push (b : Body S) (dt fx fy : S) : Body S :=
  if b.anchored then b
  else { b with ax := b.ax + limit fx * dt, ay := b.ay + limit fy * dt }

/-- Lets the acceleration act, unless the body is anchored. -/
def move (b : Body S) (sweep : Sweep S) : Body S :=
  if b.anchored then b
  else
    let vx := (b.vx + b.ax * sweep.dt * pace) * sweep.damping
    let vy := (b.vy + b.ay * sweep.dt * pace) * sweep.damping
    { b with x := b.x + vx * sweep.dt, y := b.y + vy * sweep.dt, vx, vy, ax := 0, ay := 0 }

/-- The force on the first of two bodies, along both axes. -/
def repulsion (charge : S) (a b : Body S) : S × S :=
  let dx := b.x - a.x
  let dy := b.y - a.y
  let dist := if dx == 0 && dy == 0 then 1 else Scalar.sqrt (dx * dx + dy * dy)
  let dx := dx / dist
  let dy := dy / dist
  let strength := -charge * ((mass * mass) / (dist * dist))
  (dx * strength, dy * strength)

end Body

namespace Sweep

variable [Scalar S]

/-- A body meets others in turn, and both are pushed. -/
def meet (sweep : Sweep S) : Body S → List (Body S) → Body S × List (Body S)
  | a, [] => (a, [])
  | a, b :: rest =>
    let (fx, fy) := Body.repulsion sweep.charge a b
    let (a, others) := sweep.meet (a.push sweep.dt fx fy) rest
    (a, b.push sweep.dt (-fx) (-fy) :: others)

/-- Takes the next `n` bodies in turn. -/
def run (sweep : Sweep S) : (n : Nat) → List (Body S) → List (Body S)
  | n + 1, a :: rest =>
    let (a, others) := sweep.meet a rest
    a.move sweep :: sweep.run n others
  | _, bodies => bodies

/-- Takes all bodies in turn. -/
def all (sweep : Sweep S) (bodies : List (Body S)) : List (Body S) :=
  sweep.run bodies.length bodies

end Sweep

/-! ### Laws -/

namespace Body

/-- What a sweep keeps of a body: what it is known by, whose it is, and all of it if it is anchored. -/
def kept (b : Body S) : Handle × NodeIdx × Option (Body S) :=
  (b.handle, b.node, if b.anchored then some b else none)

theorem kept_of_anchored {b : Body S} (h : b.anchored) : b.kept = (b.handle, b.node, some b) := by
  rw [kept, if_pos h]

theorem kept_of_free {b : Body S} (h : ¬ b.anchored) : b.kept = (b.handle, b.node, none) := by
  rw [kept, if_neg h]

theorem eq_of_kept_eq {b c : Body S} (h : c.kept = b.kept) (hb : b.anchored) : c = b := by
  have hall : c.kept.2.2 = some b := by rw [h, kept_of_anchored hb]
  by_cases hc : c.anchored
  · rw [kept_of_anchored hc] at hall
    exact Option.some.inj hall
  · rw [kept_of_free hc] at hall
    cases hall

theorem kept_eq_of_free {b c : Body S} (h : ¬ b.anchored) (handle : c.handle = b.handle)
    (node : c.node = b.node) (anchored : c.anchored = b.anchored) : c.kept = b.kept := by
  rw [kept_of_free h, kept_of_free (anchored ▸ h), handle, node]

variable [Scalar S]

theorem kept_push (b : Body S) (dt fx fy : S) : (b.push dt fx fy).kept = b.kept := by
  by_cases h : b.anchored
  · rw [push, if_pos h]
  · rw [push, if_neg h]
    exact kept_eq_of_free h rfl rfl rfl

theorem kept_move (b : Body S) (sweep : Sweep S) : (b.move sweep).kept = b.kept := by
  by_cases h : b.anchored
  · rw [move, if_pos h]
  · rw [move, if_neg h]
    exact kept_eq_of_free h rfl rfl rfl

end Body

namespace Sweep

variable [Scalar S] (sweep : Sweep S)

theorem kept_meet (a : Body S) (others : List (Body S)) :
    (sweep.meet a others).1.kept = a.kept ∧
      (sweep.meet a others).2.map Body.kept = others.map Body.kept := by
  induction others generalizing a with
  | nil => exact ⟨rfl, rfl⟩
  | cons b rest ih =>
    obtain ⟨ha, hrest⟩ := ih (a.push sweep.dt (Body.repulsion sweep.charge a b).1
      (Body.repulsion sweep.charge a b).2)
    refine ⟨ha.trans (a.kept_push ..), ?_⟩
    rw [meet, List.map_cons, List.map_cons, Body.kept_push, hrest]

theorem kept_run (n : Nat) (bodies : List (Body S)) :
    (sweep.run n bodies).map Body.kept = bodies.map Body.kept := by
  induction n generalizing bodies with
  | zero => rfl
  | succ n ih =>
    cases bodies with
    | nil => rfl
    | cons a rest =>
      obtain ⟨ha, hrest⟩ := sweep.kept_meet a rest
      rw [run, List.map_cons, List.map_cons, Body.kept_move, ha, ih, hrest]

theorem kept_all (bodies : List (Body S)) : (sweep.all bodies).map Body.kept = bodies.map Body.kept :=
  sweep.kept_run bodies.length bodies

/-- What is seen of kept bodies alone is the same after a sweep. -/
theorem map_all {α : Type} {f : Body S → α} (g : Handle × NodeIdx × Option (Body S) → α)
    (hf : ∀ b : Body S, f b = g b.kept) (bodies : List (Body S)) :
    (sweep.all bodies).map f = bodies.map f := by
  have hmap (bs : List (Body S)) : bs.map f = (bs.map Body.kept).map g := by
    rw [List.map_map]
    exact List.map_congr_left fun b _ => hf b
  rw [hmap, hmap, kept_all]

theorem mem_all {bodies : List (Body S)} {b : Body S} (hb : b ∈ bodies) (ha : b.anchored) :
    b ∈ sweep.all bodies := by
  have hkept : b.kept ∈ (sweep.all bodies).map Body.kept :=
    sweep.kept_all bodies ▸ List.mem_map_of_mem hb
  obtain ⟨c, hc, heq⟩ := List.mem_map.mp hkept
  exact Body.eq_of_kept_eq heq ha ▸ hc

end Sweep

namespace Engine

/-- Bodies are numbered as they are added, and repel each other. -/
@[reducible] def repelling (S : Type) [Scalar S] : Engine S where
  handle := Handle.mk
  rest := 0
  move := Sweep.all
  laws := {
    handle_inj := Handle.mk.inj
    handles := fun sweep => sweep.map_all (fun kept => kept.1) fun _ => rfl
    nodes := fun sweep => sweep.map_all (fun kept => kept.2.1) fun _ => rfl
    anchored := fun sweep => sweep.mem_all }

end Engine

instance : Engine Float32 := .repelling Float32

end TunnelMap
