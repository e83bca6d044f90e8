import TunnelMap.Picture.Call

/-! A canvas as a machine. Its settings stay until others are given, so what a call paints depends on all
the calls before it: on the path since it was last begun, on the last style, width, font and opacity, and
on where points are put. A setting is taken as it is given. -/

namespace TunnelMap

/-- Where a canvas puts the points of a drawing: it stretches the plane, then shifts it. -/
structure Placement (R : Type) where
  shift : Point R
  stretch : Point R

namespace Placement

variable {R : Type} [Scalar R]

/-- Points stay where they are. -/
def plain : Placement R := ⟨.origin, ⟨1, 1⟩⟩

/-- The point of the canvas where a point is put. -/
def put (t : Placement R) (p : Point R) : Point R :=
  ⟨p.x * t.stretch.x + t.shift.x, p.y * t.stretch.y + t.shift.y⟩

def translate (t : Placement R) (x y : R) : Placement R := { t with shift := t.put ⟨x, y⟩ }

def scale (t : Placement R) (x y : R) : Placement R :=
  { t with stretch := ⟨t.stretch.x * x, t.stretch.y * y⟩ }

end Placement

structure Settings (R : Type) where
  alpha : R
  fillStyle : Color
  strokeStyle : Color
  lineWidth : R
  textAlign : String
  textBaseline : String
  font : Font R
  placement : Placement R

/-- The steps of a path, each with the placement that it was taken under. -/
abbrev Path (R : Type) := List (Placement R × Call R)

/-- What a call leaves on a canvas, with all that it looks by. -/
inductive Mark (R : Type) where
  | filled (path : Path R) (alpha : R) (style : Color)
  | stroked (path : Path R) (alpha : R) (style : Color) (width : R) (placement : Placement R)
  | coated (corner : Point R) (width height alpha : R) (style : Color) (placement : Placement R)
  | written (text : String) (p : Point R) (alpha : R) (style : Color) (font : Font R)
      (side line : String) (placement : Placement R)

structure Canvas (R : Type) where
  now : Settings R
  /-- The settings to go back to, the last first. -/
  saved : List (Settings R)
  path : Path R
  marks : List (Mark R)

section Machine

variable {R : Type} [Scalar R]

/-- Goes on with a step of the path. -/
def Canvas.trace (c : Canvas R) (step : Call R) : Canvas R :=
  { c with path := c.path ++ [(c.now.placement, step)] }

def Canvas.paint (c : Canvas R) (m : Mark R) : Canvas R := { c with marks := c.marks ++ [m] }

/-- Goes back to the settings that were kept last, if any were. -/
def Canvas.goBack (c : Canvas R) : Canvas R :=
  match c.saved with
  | [] => c
  | settings :: saved => { c with now := settings, saved }

def Call.run : Call R → Canvas R → Canvas R
  | .fillStyle style, c => { c with now.fillStyle := style }
  | .strokeStyle style, c => { c with now.strokeStyle := style }
  | .globalAlpha alpha, c => { c with now.alpha := alpha }
  | .lineWidth width, c => { c with now.lineWidth := width }
  | .textAlign side, c => { c with now.textAlign := side }
  | .textBaseline line, c => { c with now.textBaseline := line }
  | .font f, c => { c with now.font := f }
  | .save, c => { c with saved := c.now :: c.saved }
  | .restore, c => c.goBack
  | .translate x y, c => { c with now.placement := c.now.placement.translate x y }
  | .scale x y, c => { c with now.placement := c.now.placement.scale x y }
  | .beginPath, c => { c with path := [] }
  | .moveTo p, c => c.trace (.moveTo p)
  | .lineTo p, c => c.trace (.lineTo p)
  | .quadraticCurveTo control p, c => c.trace (.quadraticCurveTo control p)
  | .arc center radius start stop, c => c.trace (.arc center radius start stop)
  | .fill, c => c.paint (.filled c.path c.now.alpha c.now.fillStyle)
  | .stroke, c =>
    c.paint (.stroked c.path c.now.alpha c.now.strokeStyle c.now.lineWidth c.now.placement)
  | .fillRect corner width height, c =>
    c.paint (.coated corner width height c.now.alpha c.now.fillStyle c.now.placement)
  | .fillText text p, c =>
    c.paint (.written text p c.now.alpha c.now.fillStyle c.now.font c.now.textAlign
      c.now.textBaseline c.now.placement)

namespace Canvas

def run (c : Canvas R) (calls : List (Call R)) : Canvas R := calls.foldl (fun c call => call.run c) c

@[simp] theorem run_nil (c : Canvas R) : c.run [] = c := rfl

@[simp] theorem run_cons (c : Canvas R) (call : Call R) (calls : List (Call R)) :
    c.run (call :: calls) = (call.run c).run calls := rfl

theorem run_append (c : Canvas R) (xs ys : List (Call R)) :
    c.run (xs ++ ys) = (c.run xs).run ys := List.foldl_append

end Canvas

/-! ### Drawings that are the same on every canvas -/

/-- On a canvas with the first opacity, the calls leave just these marks, which go by the placement and by
nothing else that the canvas has. They leave it with the second opacity, and points are put where they
were. -/
def Draws (a b : R) (calls : List (Call R)) (marks : Placement R → List (Mark R)) : Prop :=
  ∀ c : Canvas R, c.now.alpha = a → ∃ now path,
    c.run calls = { c with now, path, marks := c.marks ++ marks c.now.placement } ∧
      now.alpha = b ∧ now.placement = c.now.placement

namespace Draws

variable {a b d : R} {xs ys : List (Call R)} {ms ns : Placement R → List (Mark R)}

theorem congr (h : Draws a b xs ms) (hm : ∀ t, ns t = ms t) : Draws a b xs ns := by
  obtain rfl : ns = ms := funext hm
  exact h

theorem nil (a : R) : Draws a a [] fun _ => [] := fun c hc => ⟨c.now, c.path, by simp, hc, rfl⟩

theorem append (hx : Draws a b xs ms) (hy : Draws b d ys ns) :
    Draws a d (xs ++ ys) fun t => ms t ++ ns t := by
  intro c hc
  obtain ⟨now, path, hrun, halpha, hplace⟩ := hx c hc
  obtain ⟨now', path', hrun', halpha', hplace'⟩ := hy (c.run xs) (by rw [hrun]; exact halpha)
  refine ⟨now', path', ?_, halpha', ?_⟩
  · rw [Canvas.run_append, hrun', hrun]
    simp [hplace]
  · rw [hplace', hrun, hplace]

theorem flatMap {α : Type} {draw : α → List (Call R)} {marks : α → Placement R → List (Mark R)}
    (entries : List α) (h : ∀ x ∈ entries, Draws a a (draw x) (marks x)) :
    Draws a a (entries.flatMap draw) fun t => entries.flatMap fun x => marks x t := by
  induction entries with
  | nil => exact nil a
  | cons x entries ih =>
    simp only [List.flatMap_cons]
    exact (h x List.mem_cons_self).append (ih fun y hy => h y (List.mem_cons_of_mem x hy))

theorem opacity (a b : R) : Draws a b [.globalAlpha b] fun _ => [] := fun c _ =>
  ⟨{ c.now with alpha := b }, c.path, by simp [Call.run], rfl, rfl⟩

/-- A drawing may have an opacity of its own, if the old one is given again after it. -/
theorem between (h : Draws b d xs ms) (a : R) :
    Draws a a (.globalAlpha b :: xs ++ [.globalAlpha a]) ms := by
  have hall := ((opacity a b).append h).append (opacity d a)
  simpa using hall

variable {c : Canvas R}

theorem alpha (h : Draws a b xs ms) (hc : c.now.alpha = a) : (c.run xs).now.alpha = b := by
  obtain ⟨now, path, hrun, halpha, -⟩ := h c hc
  rw [hrun]
  exact halpha

theorem placement (h : Draws a b xs ms) (hc : c.now.alpha = a) :
    (c.run xs).now.placement = c.now.placement := by
  obtain ⟨now, path, hrun, -, hplace⟩ := h c hc
  rw [hrun]
  exact hplace

theorem marks_run (h : Draws a b xs ms) (hc : c.now.alpha = a) :
    (c.run xs).marks = c.marks ++ ms c.now.placement := by
  obtain ⟨now, path, hrun, -, -⟩ := h c hc
  rw [hrun]

end Draws

/-! ### Drawings that set all they go by -/

namespace Call

/-- A call that paints comes after calls that set all it goes by. -/
def Finds (before : List (Call R)) : Call R → Prop
  | .fill => (∃ alpha, .globalAlpha alpha ∈ before) ∧ .beginPath ∈ before ∧
      ∃ style, .fillStyle style ∈ before
  | .stroke => (∃ alpha, .globalAlpha alpha ∈ before) ∧ .beginPath ∈ before ∧
      (∃ style, .strokeStyle style ∈ before) ∧ ∃ width, .lineWidth width ∈ before
  | .fillRect .. => (∃ alpha, .globalAlpha alpha ∈ before) ∧ ∃ style, .fillStyle style ∈ before
  | .fillText .. => (∃ alpha, .globalAlpha alpha ∈ before) ∧ (∃ style, .fillStyle style ∈ before) ∧
      (∃ font, .font font ∈ before) ∧ (∃ side, .textAlign side ∈ before) ∧
      ∃ line, .textBaseline line ∈ before
  | _ => True

end Call

/-- Each call finds what it goes by among the calls that come before it, here or already earlier. -/
def SelfSet : (before calls : List (Call R)) → Prop
  | _, [] => True
  | before, call :: calls => call.Finds before ∧ SelfSet (before ++ [call]) calls

omit [Scalar R] in
theorem selfSet_append {before xs ys : List (Call R)} :
    SelfSet before (xs ++ ys) ↔ SelfSet before xs ∧ SelfSet (before ++ xs) ys := by
  induction xs generalizing before with
  | nil => simp [SelfSet]
  | cons x xs ih => simp [SelfSet, ih, and_assoc]

end Machine

end TunnelMap
