import ViewHost.Frame.Scheduler
import ViewHost.Shortcut.Registry

/-!
# Callbacks

Frame observers, pause and clock listeners, shortcuts and key observers all run
on one control thread, and while one runs it may ask anything of the scheduler
and the registry that called it: register or remove observers, itself included,
pause them, even tick again.

A callback is known by a token of type `κ`. What the callbacks do is a
`Behaviour`: a machine with a state of its own that is told when a callback is
called, asked for its next request, told the answer, and told when the callback
has returned. Nothing is assumed of the machine, so whatever holds of every
behaviour holds of every set of callbacks.
-/

namespace ViewHost

variable {κ κ' ω : Type}

/-- What a callback is called with. -/
inductive Signal where
  | tick (observer : ObserverId) (tick : FrameTick)
  | pause (observer : ObserverId) (paused : Bool)
  | clock (running : Bool)
  /-- A shortcut; the flag says whether the platform's handling of the key has
  been prevented by now. -/
  | shortcut (press : KeyPress) (prevented : Bool)
  | key (observer : KeyObserverId) (press : KeyPress) (prevented : Bool)
  deriving DecidableEq

/-- What can be asked of the scheduler and the registry. -/
inductive Request (κ : Type) where
  | register (callback : κ)
  | unregister (id : ObserverId)
  | setPaused (id : ObserverId) (paused : Bool)
  | isPaused (id : ObserverId)
  | onPause (id : ObserverId) (callback : κ)
  | onClock (callback : κ)
  | tick (now : Timestamp)
  | clearFrames
  /-- Asks what the scheduler and the registry tell about themselves. -/
  | status
  | bind (chord : Chord) (action : κ)
  | unbind (chord : Chord)
  | isBound (chord : Chord)
  | observeKeys (observer : κ)
  | ignoreKeys (id : KeyObserverId)
  | dispatch (event : KeyEvent)
  | clearKeys
  /-- Asks the platform not to handle the key that is being handled. -/
  | preventDefault
  deriving DecidableEq

/-- What comes back. -/
inductive Answer where
  | done
  | flag (b : Bool)
  | flag? (b : Option Bool)
  | observer (id : ObserverId)
  | keyObserver (id : KeyObserverId)
  | ticked (tick : Option FrameTick)
  | dispatched (result : KeyDispatch)
  | status (frames : FrameStatus) (keys : ShortcutStatus)
  deriving DecidableEq

namespace Request

/-- The same request about other tokens. -/
def map (f : κ → κ') : Request κ → Request κ'
  | register k => .register (f k)
  | unregister id => .unregister id
  | setPaused id b => .setPaused id b
  | isPaused id => .isPaused id
  | onPause id k => .onPause id (f k)
  | onClock k => .onClock (f k)
  | tick now => .tick now
  | clearFrames => .clearFrames
  | status => .status
  | bind c k => .bind c (f k)
  | unbind c => .unbind c
  | isBound c => .isBound c
  | observeKeys k => .observeKeys (f k)
  | ignoreKeys id => .ignoreKeys id
  | dispatch e => .dispatch e
  | clearKeys => .clearKeys
  | preventDefault => .preventDefault

/-- The same request with no mention of one frame observer: where it was named,
none is. -/
def sparing (hidden : ObserverId) : Request κ → Request κ
  | unregister id => .unregister (if id = hidden then ⟨0⟩ else id)
  | setPaused id b => .setPaused (if id = hidden then ⟨0⟩ else id) b
  | isPaused id => .isPaused (if id = hidden then ⟨0⟩ else id)
  | onPause id k => .onPause (if id = hidden then ⟨0⟩ else id) k
  | r => r

end Request

/-- The scheduler and the registry, with the state of the callbacks. -/
structure World (κ ω : Type) where
  frames : FrameScheduler κ
  keys : ShortcutRegistry κ
  /-- The platform's handling of the key being handled has been prevented. -/
  prevented : Bool
  client : ω

namespace World

def new (interval : Duration) (client : ω) : World κ ω := ⟨.new interval, .empty, false, client⟩

end World

/-- What the callbacks do. -/
structure Behaviour (κ ω : Type) where
  /-- A callback is called. -/
  enter : κ → Signal → ω → ω
  /-- The next request of the callback that is running, or none if it returns. -/
  request : κ → ω → Option (Request κ × ω)
  /-- Its request has been answered. -/
  answer : κ → Answer → ω → ω
  /-- The callback has returned. -/
  leave : κ → ω → ω

/-- Why a run stops short. -/
inductive Halt where
  /-- The time of a tick is out of range. -/
  | overflow
  /-- The callbacks went on for longer than the budget of the run. -/
  | exhausted
  deriving DecidableEq, Repr

/-- A run of the control thread. It keeps its state when it stops short. -/
abbrev Control (κ ω : Type) := EStateM Halt (World κ ω)

end ViewHost
