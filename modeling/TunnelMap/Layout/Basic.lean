import TunnelMap.Geometry.Point
import TunnelMap.Layout.Body
import TunnelMap.Notice
import TunnelMap.Tuning.Basic

/-! The layout of a graph. Positions are kept in the precision `R`; bodies in the precision `S`
follow them and repel each other. A body knows the node that it stands for, and a layout knows
the bodies of its nodes by their handles. Between two sweeps the links draw their ends towards
their rest lengths, the less the cooler the layout is. -/

namespace TunnelMap

/-- An edge as a link of the layout. -/
structure Link (R : Type) where
  source : NodeIdx
  target : NodeIdx
  params : LinkParams R
  /-- The share of a correction that falls to the target. -/
  bias : R
  deriving DecidableEq, Repr

structure Layout (R S : Type) where
  bodies : List (Body S)
  /-- What the bodies of the nodes are known by. -/
  handles : List Handle
  links : List (Link R)
  charges : List R
  pinned : List Bool
  positions : List (Point R)
  /-- The heat. -/
  alpha : R
  alphaDecay : R
  alphaMin : R
  damping : S
  deriving DecidableEq, Repr

namespace Layout

variable {R S : Type} [Scalar R] [Engine S] [Precision R S]

/-- The place on the ring where the `i`-th of `count` nodes starts. -/
def seed (count i : Nat) : Point R :=
  let ring : R := 10 * Scalar.sqrt (Scalar.ofNat (max count 1))
  let angle := Scalar.ofNat i * 2 * Scalar.pi / Scalar.ofNat count
  ⟨ring * Scalar.cos angle, ring * Scalar.sin angle⟩

/-- A link before it is tuned. The end with fewer edges takes the larger share. -/
def linkOf (t : Tuning R) (g : Graph) (e : Edge) : Link R :=
  let s : R := Scalar.ofNat (g.incident e.source).length
  let d : R := Scalar.ofNat (g.incident e.target).length
  ⟨e.source, e.target, t.peer, s / (s + d)⟩

omit [Scalar R] in
/-- Adds a body for each node where it is. -/
def enlist (positions : List (Point R)) : List Handle × List (Body S) :=
  positions.zipIdx.foldl (fun (handles, bodies) (p, i) =>
    let (handle, bodies) := Body.add bodies i (narrow p.x) (narrow p.y)
    (handles ++ [handle], bodies)) ([], [])

/-- A cold layout with the nodes on a ring around the origin. -/
def ofGraph (g : Graph) (t : Tuning R) : Layout R S :=
  let count := g.nodes.length
  let positions := (List.range count).map (seed count)
  let (handles, bodies) := enlist positions
  { bodies
    handles
    links := g.edges.map (linkOf t g)
    charges := List.replicate count t.charge
    pinned := List.replicate count false
    positions
    alpha := 0
    alphaDecay := t.alphaDecay
    alphaMin := t.alphaMin
    damping := narrow t.velocityRetention }

omit [Engine S] [Precision R S] in
def isRunning (l : Layout R S) : Bool := l.alphaMin ≤ l.alpha

omit [Scalar R] [Engine S] [Precision R S] in
def linkParams? (l : Layout R S) (i : EdgeIdx) : Option (LinkParams R) := l.links[i]?.map (·.params)

omit [Scalar R] [Engine S] in
/-- Puts a body where its node is. -/
def follow (b : Body S) (p : Point R) (pinned : Bool) : Body S :=
  { b with x := narrow p.x, y := narrow p.y, anchored := pinned }

omit [Scalar R] [Engine S] in
/-- Puts a body where the layout has its node. -/
def align (l : Layout R S) (b : Body S) : Body S :=
  match l.positions[b.node]?, l.pinned[b.node]? with
  | some p, some pinned => follow b p pinned
  | _, _ => b

omit [Scalar R] [Engine S] in
/-- Puts all bodies where their nodes are. -/
def writeBack (l : Layout R S) : Layout R S := { l with bodies := l.bodies.map l.align }

omit [Scalar R] [Engine S] in
/-- Fixes a node in a place, if the layout has the node. -/
def pin (l : Layout R S) (i : NodeIdx) (p : Point R) : Layout R S :=
  if i < l.positions.length then
    { l with
      positions := l.positions.set i p
      pinned := l.pinned.set i true
      bodies := l.bodies.map fun b => if l.handles[i]? = some b.handle then follow b p true else b }
  else l

/-! ### Steps -/

omit [Engine S] [Precision R S] in
/-- How strongly the nodes repel each other on average; attraction does not count. -/
def meanRepulsion (l : Layout R S) : R :=
  if l.charges.isEmpty then 0
  else
    let mean := Scalar.sum (l.charges.map fun c => -c) / Scalar.ofNat l.charges.length
    Scalar.max mean 0 * 10

/-- How long a link must be to have a direction. -/
def minLength : R := 0.000001

/-- How a link corrects the way from its source to its target, unless it has no direction. -/
def correction? (alpha : R) (k : Link R) (s t : Point R) : Option (Point R) :=
  let dx := t.x - s.x
  let dy := t.y - s.y
  let len := Point.hypot dx dy
  if len < minLength then none
  else
    let pull := (len - k.params.distance) / len * alpha * k.params.strength
    some ⟨dx * pull, dy * pull⟩

/-- The share of a correction that falls to the target. -/
def drawTarget (k : Link R) (c p : Point R) : Point R := ⟨p.x - c.x * k.bias, p.y - c.y * k.bias⟩

/-- The share of a correction that falls to the source. -/
def drawSource (k : Link R) (c p : Point R) : Point R :=
  ⟨p.x + c.x * (1 - k.bias), p.y + c.y * (1 - k.bias)⟩

/-- Moves the free ends of a link towards its rest length. -/
def drawLink (alpha : R) (pinned : List Bool) (positions : List (Point R)) (k : Link R) :
    List (Point R) :=
  match positions[k.source]?, positions[k.target]? with
  | some s, some t =>
    match correction? alpha k s t with
    | some c =>
      let free (i : NodeIdx) : Bool := !(pinned[i]?.getD false)
      let positions := if free k.target then positions.modify k.target (drawTarget k c) else positions
      if free k.source then positions.modify k.source (drawSource k c) else positions
    | none => positions
  | _, _ => positions

omit [Engine S] [Precision R S] in
/-- Draws at all links in turn. -/
def applyLinks (l : Layout R S) : Layout R S :=
  { l with positions := l.links.foldl (drawLink l.alpha l.pinned) l.positions }

omit [Scalar R] [Engine S] in
/-- Where a body is, in the precision of positions. -/
def spot (b : Body S) : Point R := ⟨widen b.x, widen b.y⟩

omit [Scalar R] [Engine S] in
/-- Puts the node of a body where the body is. -/
def fetch (positions : List (Point R)) (b : Body S) : List (Point R) :=
  positions.set b.node (spot b)

/-- Lets the bodies repel each other and takes over where they went. -/
def sweep (l : Layout R S) (dt : S) : Layout R S :=
  let bodies := Engine.move ⟨narrow (l.meanRepulsion * l.alpha), l.damping, dt⟩ l.bodies
  { l with bodies, positions := bodies.foldl fetch l.positions }

omit [Engine S] [Precision R S] in
def cool (l : Layout R S) : Layout R S := { l with alpha := l.alpha - l.alpha * l.alphaDecay }

/-- One step of a layout that runs; a layout at rest stays as it is. -/
def tick (l : Layout R S) (dt : S) : Layout R S :=
  if l.isRunning then (l.sweep dt).applyLinks.writeBack.cool else l

/-- A step as the layout answers it: whether it was still running, and what it is then. -/
def advance (l : Layout R S) (dt : S) : Bool × Layout R S :=
  if l.isRunning then (true, (l.sweep dt).applyLinks.writeBack.cool) else (false, l)

/-! ### Orders -/

omit [Engine S] [Precision R S] in
def obey (l : Layout R S) : Order R → Layout R S
  | .setLink i params => { l with links := l.links.modify i fun k => { k with params } }
  | .setCharge i c => { l with charges := l.charges.set i c }
  | .reheat => { l with alpha := 1 }

omit [Engine S] [Precision R S] in
/-- Brings a layout of a graph to a tuning. -/
def tune (l : Layout R S) (t : Tuning R) (g : Graph) : Layout R S :=
  (t.orders g).foldl obey l

/-- What is said when a layout is brought to a tuning. -/
def tuneNotices (g : Graph) : List Notice :=
  [.reheated, .physicsApplied g.nodes.length g.edges.length]

/-! ### Succession -/

omit [Scalar R] [Engine S] [Precision R S] in
/-- Where a node of an earlier layout was, and whether it was pinned. -/
def remembered (previous : Layout R S) (previousGraph : Graph) (id : NodeId) :
    Option (Point R × Bool) := do
  let i ← previousGraph.nodeIdx? id
  let p ← previous.positions[i]?
  return (p, previous.pinned[i]?.getD false)

omit [Scalar R] [Engine S] [Precision R S] in
/-- Puts the nodes that something is remembered of where they were. -/
def inherit (l : Layout R S) (memory : List (Option (Point R × Bool))) : Layout R S :=
  { l with
    positions := List.zipWith (fun m p => (m.map Prod.fst).getD p) memory l.positions
    pinned := List.zipWith (fun m b => (m.map Prod.snd).getD b) memory l.pinned }

omit [Scalar R] [Engine S] in
/-- Puts the nodes that an earlier layout knew where they were, and says how many. -/
def carryOver (l : Layout R S) (g previousGraph : Graph) (previous : Layout R S) :
    Layout R S × Nat :=
  let memory := g.nodes.map fun n => previous.remembered previousGraph n.id
  ((l.inherit memory).writeBack, memory.countP Option.isSome)

end Layout

end TunnelMap
