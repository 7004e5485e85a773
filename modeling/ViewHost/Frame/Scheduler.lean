import Std.Data.ExtTreeMap
import ViewHost.Time.Duration

/-!
# The frame scheduler

One clock ticks for every observer that wants frames. Pulses of the clock that
come sooner than the nominal interval after the last tick are passed over, a
paused observer gets no ticks, and the clock stands still while nobody wants
any. Time during which it stood still is in no tick's delta.

The callbacks are values of a type `κ`, about which the scheduler knows
nothing. What they do when they are called, and in which order they are, is a
matter of `ViewHost.Control`; here are the steps taken between the calls.
-/

namespace ViewHost

variable {κ : Type}

/-- A delivered frame. -/
structure FrameTick where
  timestamp : Timestamp
  /-- The time since the last tick, never below the nominal interval. -/
  delta : Duration
  deriving DecidableEq

/-- The name of an observer. The store of the observers is taken to issue each
name once, so that no observer ever gets one that another has or has had. Here
they are issued in order, from one; zero names none. -/
structure ObserverId where
  index : Nat
  deriving DecidableEq, Inhabited, Repr

instance : Ord ObserverId := ⟨compareOn ObserverId.index⟩

instance : Std.TransOrd ObserverId := inferInstanceAs (Std.TransCmp (compareOn ObserverId.index))

instance : Std.LawfulEqOrd ObserverId where
  eq_of_compare {a b} h := by
    have : a.index = b.index := Std.LawfulEqOrd.eq_of_compare (α := Nat) h
    cases a; cases b; simp_all

structure FrameObserver (κ : Type) where
  /-- Away while the callback runs. -/
  callback : Option κ
  paused : Bool
  /-- Called when the observer is paused or wakes up. -/
  onPause : Option κ

structure FrameScheduler (κ : Type) where
  observers : Std.ExtTreeMap ObserverId (FrameObserver κ)
  /-- The observers in the order in which they came. -/
  order : List ObserverId
  interval : Duration
  /-- The clock is meant to tick. -/
  running : Bool
  lastTick : Option Timestamp
  /-- The clock has started anew since the last tick. -/
  resumed : Bool
  /-- The number of ticks so far. -/
  delivered : Nat
  /-- Called when the clock starts or stops. -/
  onClock : Option κ
  issued : Nat

namespace FrameScheduler

/-- The usual interval, about sixty frames a second. -/
def defaultInterval : Duration := .ofMicros 16600

def new (interval : Duration) : FrameScheduler κ where
  observers := ∅
  order := []
  interval := interval
  running := false
  lastTick := none
  resumed := true
  delivered := 0
  onClock := none
  issued := 0

def observerCount (s : FrameScheduler κ) : Nat := s.observers.size

def isPaused? (s : FrameScheduler κ) (id : ObserverId) : Option Bool :=
  s.observers[id]?.map (·.paused)

/-- Whether an observer is there and wants ticks. -/
def isAwake (s : FrameScheduler κ) (id : ObserverId) : Bool := s.isPaused? id == some false

/-- Whether any observer wants ticks. -/
def wanted (s : FrameScheduler κ) : Bool := s.observers.any fun _ o => !o.paused

/-- Takes in an observer. -/
def add (s : FrameScheduler κ) (callback : κ) : ObserverId × FrameScheduler κ :=
  let id : ObserverId := ⟨s.issued + 1⟩
  (id, { s with
    observers := s.observers.insert id ⟨some callback, false, none⟩
    order := s.order ++ [id]
    issued := s.issued + 1 })

/-- Lets an observer go. The answer is whether it was there. -/
def remove (s : FrameScheduler κ) (id : ObserverId) : Bool × FrameScheduler κ :=
  if s.observers.contains id then
    (true, { s with observers := s.observers.erase id, order := s.order.filter (· ≠ id) })
  else (false, s)

/-- Changes an observer that is there. -/
def modify (s : FrameScheduler κ) (id : ObserverId) (f : FrameObserver κ → FrameObserver κ) :
    FrameScheduler κ :=
  match s.observers[id]? with
  | some o => { s with observers := s.observers.insert id (f o) }
  | none => s

/-- Forgets every observer. -/
def clear (s : FrameScheduler κ) : FrameScheduler κ := { s with observers := ∅, order := [] }

/-- Starts or stops the clock if it has to be; the answer is the new state, if
it is one. -/
def refresh (s : FrameScheduler κ) : Option Bool × FrameScheduler κ :=
  let wanted := s.wanted
  if wanted = s.running then (none, s)
  else (some wanted, { s with running := wanted, resumed := wanted || s.resumed })

/-- What a pulse of the clock comes to. -/
inductive Pulse (κ : Type) where
  /-- The clock stands still, or the pulse came too soon. -/
  | ignored
  | accepted (tick : FrameTick) (after : FrameScheduler κ)
  /-- The time of the next tick is out of range. -/
  | overflow

/-- The tick that a pulse is accepted as. -/
def accept (s : FrameScheduler κ) (now : Timestamp) (delta : Duration) : Pulse κ :=
  .accepted ⟨now, delta⟩
    { s with lastTick := some now, resumed := false, delivered := s.delivered + 1 }

/-- A pulse of the clock. -/
def pulse (s : FrameScheduler κ) (now : Timestamp) : Pulse κ :=
  if !s.running then .ignored
  else
    match s.lastTick with
    | none => s.accept now s.interval
    | some last =>
      match last.add? s.interval with
      | none => .overflow
      | some next =>
        if now < next then .ignored
        else s.accept now (if s.resumed then s.interval else now.monus last)

/-- What a sum of times out of range is reported as. -/
def overflowMessage : String := "overflow when adding durations"

/-- The observers that a tick is for. -/
def due (s : FrameScheduler κ) : List ObserverId := s.order.filter s.isAwake

/-- Takes away an observer's callback to call it, unless the observer is gone,
paused, or being called already. -/
def takeCallback? (s : FrameScheduler κ) (id : ObserverId) : Option (κ × FrameScheduler κ) := do
  let o ← s.observers[id]?
  let k ← o.callback
  if o.paused then none else some (k, s.modify id fun o => { o with callback := none })

/-- Puts an observer's callback back after the call. -/
def restore (s : FrameScheduler κ) (id : ObserverId) (k : κ) : FrameScheduler κ :=
  s.modify id fun o => { o with callback := o.callback <|> some k }

end FrameScheduler

/-- What a scheduler tells about itself. -/
structure FrameStatus where
  interval : Duration
  running : Bool
  observers : Nat
  delivered : Nat
  deriving DecidableEq

def FrameScheduler.status (s : FrameScheduler κ) : FrameStatus :=
  ⟨s.interval, s.running, s.observerCount, s.delivered⟩

/-- The scheduler in one line. -/
def FrameStatus.text (s : FrameStatus) : String :=
  s!"FrameScheduler \x7b interval: {s.interval.text}, running: {s.running}, " ++
    s!"observers: {s.observers}, delivered: {s.delivered} \x7d"

end ViewHost
