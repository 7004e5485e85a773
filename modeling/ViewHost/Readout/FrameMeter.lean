import ViewHost.Decimal.Shortest
import ViewHost.Frame.Scheduler

/-!
# The frame meter

The meter counts the ticks of one window of at least a second after the other.
The tick that ends a window is counted in it and starts the next; the very first
tick only starts the first. Until a window has ended, a moving average of the
rates of single ticks stands in for the count.
-/

namespace ViewHost

structure FrameMeter where
  windowStart : Option Timestamp
  framesInWindow : Nat
  /-- The rate in the last full window, and the extremes of all windows. -/
  fps : Option Nat
  min : Option Nat
  max : Option Nat
  smoothed : Float32
  /-- The number of ticks so far. -/
  frameCount : Nat

namespace FrameMeter

/-- A meter that has seen nothing. -/
def new : FrameMeter := ⟨none, 0, none, none, none, 0, 0⟩

/-- Forgets everything seen so far. -/
def reset (_ : FrameMeter) : FrameMeter := new

/-- How much the latest tick counts in the moving average. -/
def weight : Float32 := 0.2

/-- The moving average after a tick with the given delta. It starts with the
first rate, and a tick without length does not count. -/
def average (smoothed : Float32) (delta : Duration) : Float32 :=
  let dt := delta.toSeconds
  if 0 < dt then
    let rate := 1 / dt
    if smoothed == 0 then rate else (1 - weight) * smoothed + weight * rate
  else smoothed

/-- The nearest whole number from 0 to 2³² - 1, the larger of two equally near
ones. If there is nothing to be near to, it is 0. -/
def nearestWhole (x : Float32) : Nat :=
  let greatest := UInt32.size - 1
  match x.toModel.unpack with
  | .finite .positive mantissa (.ofNat n) _ => Nat.min (mantissa <<< n) greatest
  | .finite .positive mantissa (.negSucc n) _ =>
    Nat.min ((mantissa + (1 <<< n)) >>> (n + 1)) greatest
  | .infinity .positive => greatest
  | _ => 0

/-- Frames per second, to the nearest whole number. -/
def rate (frames : Nat) (elapsed : Duration) : Nat :=
  nearestWhole (frames.toUInt64.toFloat32 / elapsed.toSeconds)

/-- Sees a tick. If it ends a window, the rate in that window is the answer. -/
def observe (m : FrameMeter) (tick : FrameTick) : Option Nat × FrameMeter :=
  let m := { m with
    frameCount := m.frameCount + 1
    smoothed := average m.smoothed tick.delta }
  match m.windowStart with
  | none => (none, { m with windowStart := some tick.timestamp })
  | some start =>
    let frames := m.framesInWindow + 1
    let elapsed := tick.timestamp.monus start
    if elapsed < .second then (none, { m with framesInWindow := frames })
    else
      let fps := rate frames elapsed
      (some fps, { m with
        windowStart := some tick.timestamp
        framesInWindow := 0
        fps := some fps
        min := some ((m.min.map fun n => n.min fps).getD fps)
        max := some ((m.max.map fun n => n.max fps).getD fps) })

/-- The meter in a few words. -/
def label (m : FrameMeter) : String :=
  match m.fps, m.min, m.max with
  | some fps, some least, some most => s!"fps: {fps} (min {least}, max {most})"
  | _, _, _ => "fps: ~" ++ Decimal.wholeText m.smoothed

end FrameMeter

/-- A frame meter, and whom it tells. -/
structure FrameGauge (κ : Type) where
  meter : FrameMeter
  /-- Called with the rate in a window when it ends. -/
  onUpdate : Option κ

namespace FrameGauge

variable {κ : Type}

def new (onUpdate : Option κ) : FrameGauge κ := ⟨.new, onUpdate⟩

/-- Forgets everything seen so far, but not whom to tell. -/
def reset (g : FrameGauge κ) : FrameGauge κ := { g with meter := g.meter.reset }

/-- Sees a tick. The answer is the call that is due if it ends a window. -/
def observe (g : FrameGauge κ) (tick : FrameTick) : Option (κ × Nat) × FrameGauge κ :=
  let (fps, m) := g.meter.observe tick
  (g.onUpdate.bind fun k => fps.map (k, ·), { g with meter := m })

end FrameGauge

end ViewHost
