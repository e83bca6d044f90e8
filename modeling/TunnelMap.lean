import TunnelMap.Page.Site
import TunnelMap.Proofs.Geometry.Curve
import TunnelMap.Proofs.Geometry.Flow
import TunnelMap.Proofs.Geometry.Path
import TunnelMap.Proofs.Graph.Bare
import TunnelMap.Proofs.Graph.Build
import TunnelMap.Proofs.Graph.Incidence
import TunnelMap.Proofs.Graph.Induced
import TunnelMap.Proofs.Graph.Named
import TunnelMap.Proofs.Graph.Reorder
import TunnelMap.Proofs.Graph.Scan
import TunnelMap.Proofs.Graph.Turn
import TunnelMap.Proofs.Hover.Agreement
import TunnelMap.Proofs.Hover.Bracket
import TunnelMap.Proofs.Hover.Replay
import TunnelMap.Proofs.Hover.Turn
import TunnelMap.Proofs.Json.Closed
import TunnelMap.Proofs.Json.Open
import TunnelMap.Proofs.Json.Taking
import TunnelMap.Proofs.Json.Whole
import TunnelMap.Proofs.Layout.Bounds
import TunnelMap.Proofs.Layout.Carry
import TunnelMap.Proofs.Layout.Fit
import TunnelMap.Proofs.Layout.Frame
import TunnelMap.Proofs.Layout.Laying
import TunnelMap.Proofs.Layout.Orders
import TunnelMap.Proofs.Layout.Pull
import TunnelMap.Proofs.Layout.Rest
import TunnelMap.Proofs.Layout.Restart
import TunnelMap.Proofs.Layout.Share
import TunnelMap.Proofs.Outcome
import TunnelMap.Proofs.Page.Delivery
import TunnelMap.Proofs.Page.Frames
import TunnelMap.Proofs.Page.Opening
import TunnelMap.Proofs.Page.Run
import TunnelMap.Proofs.Picture.Aim
import TunnelMap.Proofs.Picture.Canvas
import TunnelMap.Proofs.Picture.Marks
import TunnelMap.Proofs.Picture.Scene
import TunnelMap.Proofs.Scalar.Binary
import TunnelMap.Proofs.Scalar.Extended
import TunnelMap.Proofs.Scalar.Order
import TunnelMap.Proofs.Scalar.Parts
import TunnelMap.Proofs.Scalar.Place
import TunnelMap.Proofs.Scalar.Product
import TunnelMap.Proofs.Scalar.Quotient
import TunnelMap.Proofs.Scalar.Whole
import TunnelMap.Proofs.Sizing
import TunnelMap.Proofs.Snapshot.Entries
import TunnelMap.Proofs.Snapshot.Values
import TunnelMap.Proofs.Tuning.Decoded
import TunnelMap.Proofs.View.Anchor
import TunnelMap.Proofs.View.Bare
import TunnelMap.Proofs.View.Click
import TunnelMap.Proofs.View.Cooling
import TunnelMap.Proofs.View.Drag
import TunnelMap.Proofs.View.Exact
import TunnelMap.Proofs.View.Fit
import TunnelMap.Proofs.View.Foremost
import TunnelMap.Proofs.View.Gesture
import TunnelMap.Proofs.View.Grip
import TunnelMap.Proofs.View.Guard
import TunnelMap.Proofs.View.Pair
import TunnelMap.Proofs.View.Pan
import TunnelMap.Proofs.View.Pick
import TunnelMap.Proofs.View.Pivot
import TunnelMap.Proofs.View.Redelivery
import TunnelMap.Proofs.View.Route
import TunnelMap.Proofs.View.Run
import TunnelMap.Proofs.View.Sized
import TunnelMap.Proofs.View.Stillness
import TunnelMap.Proofs.View.Succession
import TunnelMap.Proofs.View.Taken
import TunnelMap.Proofs.View.Tuned
import TunnelMap.Proofs.View.Wheel
import TunnelMap.Proofs.View.Zoom
