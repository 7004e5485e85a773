import ViewHost.Readout.FrameMeter
import ViewHost.View.Basic

/-!
# The status line

A text overlay with the frame meter, counts of what a host holds, and the view
that is hovered over.
-/

namespace ViewHost

/-- Counts of what a host holds at one moment. -/
structure Metrics where
  treeNodes : Nat
  activeTouches : Nat
  outboundBacklog : Nat
  frameObservers : Nat
  deliveredTicks : Nat
  keyCommands : Nat
  deriving DecidableEq, Repr

namespace Metrics

def toList (m : Metrics) : List Nat :=
  [m.treeNodes, m.activeTouches, m.outboundBacklog, m.frameObservers, m.deliveredTicks,
    m.keyCommands]

def labels : List String := ["nodes", "touches", "backlog", "observers", "ticks", "commands"]

/-- One line for each count. -/
def lines (m : Metrics) : List String :=
  (labels.zip m.toList).map fun (label, n) => label ++ ": " ++ toString n

end Metrics

structure Hud where
  meter : FrameMeter
  metrics : Option Metrics
  hovered : Option Tag

namespace Hud

/-- The overlay in one line. -/
def statusLine (h : Hud) : String :=
  "  |  ".intercalate <|
    ["frame: " ++ toString h.meter.frameCount, h.meter.label] ++
    (h.metrics.map Metrics.lines).getD [] ++
    (h.hovered.map fun tag => "hover: " ++ tag.text).toList

end Hud

end ViewHost
