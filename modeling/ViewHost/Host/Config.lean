import ViewHost.Scalar
import ViewHost.Frame.Scheduler
import ViewHost.Decimal.Shortest

/-!
# Configuration

What can be tuned about a host.
-/

namespace ViewHost

variable {α : Type} [Scalar α]

structure HostConfig (α : Type) where
  /-- Ticks that come sooner are passed over. -/
  frameInterval : Duration
  /-- The queue length beyond which a notice is given. -/
  backlogWarning : Nat
  /-- Shorter moves count as none. -/
  stationaryEpsilon : α
  hoverTracking : Bool
  deriving DecidableEq

namespace HostConfig

def default : HostConfig α := ⟨FrameScheduler.defaultInterval, 256, 0, true⟩

def withFrameInterval (c : HostConfig α) (d : Duration) : HostConfig α :=
  { c with frameInterval := d }

def withBacklogWarning (c : HostConfig α) (n : Nat) : HostConfig α := { c with backlogWarning := n }

def withStationaryEpsilon (c : HostConfig α) (e : α) : HostConfig α :=
  { c with stationaryEpsilon := e }

def withHoverTracking (c : HostConfig α) (on : Bool) : HostConfig α :=
  { c with hoverTracking := on }

/-- Numbers have a point, and an exponent below a ten-thousandth and from ten
quadrillions on. -/
def numberLayout : Layout := ⟨some (-4), some 15, true, false⟩

/-- The configuration in one line. -/
def text (c : HostConfig Float32) : String :=
  "HostConfig \x7b frame_interval: " ++ c.frameInterval.text ++
    ", delivery_backlog_warning: " ++ toString c.backlogWarning ++
    ", stationary_epsilon: " ++ Decimal.floatText c.stationaryEpsilon numberLayout ++
    ", hover_tracking: " ++ toString c.hoverTracking ++ " \x7d"

end HostConfig

end ViewHost
