import ViewHost.Time.Duration

/-!
# Clocks

Platforms report events at instants of a machine's monotone clock. An epoch
fixes the instant that timestamps are counted from. Instants before the epoch
have timestamp zero.
-/

namespace ViewHost

/-- A reading of a monotone clock, which counts signed 64-bit seconds. -/
structure Instant where
  nanos : Nat
  nanos_lt : nanos < (1 <<< 63) * 1000000000
  deriving DecidableEq

namespace Instant

/-- The instant a while later, unless the clock cannot count that far. -/
def add? (i : Instant) (d : Duration) : Option Instant :=
  if h : i.nanos + d.nanos < (1 <<< 63) * 1000000000 then some ⟨_, h⟩ else none

/-- The time from `j` to `i`, or zero if `j` is the later. -/
def since (i j : Instant) : Duration :=
  ⟨i.nanos - j.nanos, by have := i.nanos_lt; omega⟩

end Instant

/-- A clock driven by hand. -/
structure Clock where
  now : Instant
  deriving DecidableEq

namespace Clock

/-- A clock on a machine that has been up for a day. -/
def start : Clock := ⟨⟨86400 * 1000000000, by decide⟩⟩

/-- What running past the last instant is reported as. -/
def overflowMessage : String := "overflow when adding duration to instant"

/-- The clock a while later. -/
def advance? (c : Clock) (by_ : Duration) : Option Clock := (c.now.add? by_).map Clock.mk

end Clock

/-- The instant that timestamps are counted from. -/
structure Epoch where
  origin : Instant
  deriving DecidableEq

namespace Epoch

def startingNow (c : Clock) : Epoch := ⟨c.now⟩

def timestamp (e : Epoch) (i : Instant) : Timestamp := i.since e.origin

def now (e : Epoch) (c : Clock) : Timestamp := e.timestamp c.now

end Epoch

/-- Converts the instants of native events into timestamps, counted from when
the converter was made. -/
structure EventClock where
  epoch : Epoch
  deriving DecidableEq

namespace EventClock

def start (c : Clock) : EventClock := ⟨Epoch.startingNow c⟩

def now (e : EventClock) (c : Clock) : Timestamp := e.epoch.now c

def timestampAt (e : EventClock) (i : Instant) : Timestamp := e.epoch.timestamp i

end EventClock

end ViewHost
