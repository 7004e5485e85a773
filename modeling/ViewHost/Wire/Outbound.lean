import ViewHost.Host.Basic
import ViewHost.Wire.Command
import ViewHost.Wire.Config

/-!
# Reports on the wire

How what a host reports is sent to the runtime behind it.
-/

namespace ViewHost.Wire

def ofPoint (p : Vec2 Float32) : Json := .object [("x", ofFloat p.x), ("y", ofFloat p.y)]

/-- The name of a phase, which is written in small letters. -/
def phaseName : TouchPhase → String
  | .began => "began"
  | .moved => "moved"
  | .stationary => "stationary"
  | .ended => "ended"
  | .cancelled => "cancelled"

def ofTouchEvent (e : TouchEvent Float32) : Json :=
  .object [("identifier", .ofNat e.identifier.val.toNat), ("phase", .text (phaseName e.phase)),
    ("location", ofPoint e.location), ("root_location", ofPoint e.rootLocation),
    ("timestamp", ofDuration e.timestamp), ("target", ofTag e.target)]

def ofHoverChange : HoverChange → Json
  | .enter t => .object [("Enter", ofTag t)]
  | .leave t => .object [("Leave", ofTag t)]

def ofOutbound : Outbound Float32 → Json
  | .touches batch =>
    .object [("type", .text "touches"), ("sequence", .ofNat batch.sequence),
      ("events", .arr (batch.events.map ofTouchEvent))]
  | .hover at_ changes cursor =>
    .object [("type", .text "hover"), ("timestamp", ofDuration at_),
      ("changes", .arr (changes.map ofHoverChange)), ("cursor", .text cursor.name)]

end ViewHost.Wire
