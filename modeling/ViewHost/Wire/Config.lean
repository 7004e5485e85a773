import ViewHost.Host.Config
import ViewHost.Wire.Record

/-!
# Configurations on the wire

Settings that are not given have their usual values.
-/

namespace ViewHost.Wire

/-- A length of time. A second or more of nanoseconds carries over, and no other
member may be there. -/
def duration? (j : Json) : Option Duration := do
  let names := ["secs", "nanos"]
  let r ← Record.ofJson? names j
  if r.names.all names.contains then
    let secs ← r.get? "secs" (Json.natBelow? UInt64.size)
    let nanos ← r.get? "nanos" (Json.natBelow? UInt32.size)
    Duration.ofParts? secs nanos
  else none

def ofDuration (d : Duration) : Json :=
  .object [("secs", .ofNat d.secs), ("nanos", .ofNat d.subsecNanos)]

def config? (j : Json) : Option (HostConfig Float32) := do
  let usual : HostConfig Float32 := .default
  let r ← Record.ofJson?
    ["frame_interval", "delivery_backlog_warning", "stationary_epsilon", "hover_tracking"] j
  return {
    frameInterval := ← r.getD? "frame_interval" duration? usual.frameInterval
    backlogWarning :=
      ← r.getD? "delivery_backlog_warning" (Json.natBelow? UInt64.size) usual.backlogWarning
    stationaryEpsilon := ← r.getD? "stationary_epsilon" float? usual.stationaryEpsilon
    hoverTracking := ← r.getD? "hover_tracking" Json.bool? usual.hoverTracking }

def ofConfig (c : HostConfig Float32) : Json :=
  .object [("frame_interval", ofDuration c.frameInterval),
    ("delivery_backlog_warning", .ofNat c.backlogWarning),
    ("stationary_epsilon", ofFloat c.stationaryEpsilon),
    ("hover_tracking", .bool c.hoverTracking)]

end ViewHost.Wire
