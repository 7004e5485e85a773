import ViewHost.Control.Basic

/-!
# Running callbacks

Each operation of the scheduler and of the registry changes their state in
steps, with calls of callbacks in between; the calls find, and may change, the
state that the steps so far have left. What a tick or a key event is delivered
to is settled before the first call.

The operations are written over an arbitrary way to call, and the way to call is
then tied to them by a budget that bounds how deep and how long callbacks go on.
-/

namespace ViewHost

variable {κ ω : Type}

/-- A way to call callbacks. -/
abbrev Caller (κ ω : Type) := κ → Signal → Control κ ω Unit

namespace Control

def setFrames (frames : FrameScheduler κ) : Control κ ω Unit :=
  modify fun w => { w with frames := frames }

def setKeys (keys : ShortcutRegistry κ) : Control κ ω Unit :=
  modify fun w => { w with keys := keys }

/-- Starts or stops the clock if it has to be, and tells the clock listener. -/
def refreshClock (call : Caller κ ω) : Control κ ω Unit := do
  let (change, frames) := (← get).frames.refresh
  setFrames frames
  match change, frames.onClock with
  | some running, some k => call k (.clock running)
  | _, _ => return

def register (call : Caller κ ω) (callback : κ) : Control κ ω ObserverId := do
  let (id, frames) := (← get).frames.add callback
  setFrames frames
  refreshClock call
  return id

def unregister (call : Caller κ ω) (id : ObserverId) : Control κ ω Bool := do
  let (there, frames) := (← get).frames.remove id
  setFrames frames
  if there then refreshClock call
  return there

/-- Pauses an observer or wakes it up. Its pause listener hears of it before the
clock does. -/
def setPaused (call : Caller κ ω) (id : ObserverId) (paused : Bool) : Control κ ω Bool := do
  let frames := (← get).frames
  match frames.observers[id]? with
  | none => return false
  | some o =>
    if o.paused = paused then return true
    setFrames (frames.modify id fun o => { o with paused := paused })
    match o.onPause with
    | some k => call k (.pause id paused)
    | none => pure ()
    refreshClock call
    return true

/-- Delivers a tick to the observers on a list. One that is gone, paused or
running when its turn comes is passed over. -/
def deliver (call : Caller κ ω) (tick : FrameTick) : List ObserverId → Control κ ω Unit
  | [] => return
  | id :: rest => do
    match (← get).frames.takeCallback? id with
    | none => pure ()
    | some (k, frames) =>
      setFrames frames
      call k (.tick id tick)
      setFrames ((← get).frames.restore id k)
    deliver call tick rest

/-- A pulse of the clock. -/
def tick (call : Caller κ ω) (now : Timestamp) : Control κ ω (Option FrameTick) := do
  match (← get).frames.pulse now with
  | .ignored => return none
  | .overflow => throw .overflow
  | .accepted tick frames =>
    setFrames frames
    deliver call tick frames.due
    return some tick

def clearFrames (call : Caller κ ω) : Control κ ω Unit := do
  setFrames (← get).frames.clear
  refreshClock call

/-- Calls key observers in turn. -/
def announce (call : Caller κ ω) (press : KeyPress) : List (KeyObserverId × κ) → Control κ ω Unit
  | [] => return
  | (id, k) :: rest => do
    call k (.key id press (← get).prevented)
    announce call press rest

/-- Routes a key event: first to the action bound to it, if there is one, and
then to every observer. An event that is being handled meanwhile keeps its own
account of whether its default is prevented. -/
def dispatch (call : Caller κ ω) (event : KeyEvent) : Control κ ω KeyDispatch := do
  let before ← get
  let press := KeyPress.ofEvent event
  let action := before.keys.actionFor? press
  modify fun w => { w with prevented := false }
  match action with
  | some k => call k (.shortcut press false)
  | none => pure ()
  announce call press before.keys.observers
  let prevented := (← get).prevented
  modify fun w => { w with prevented := before.prevented }
  return ⟨action.isSome, prevented⟩

/-- Answers a request. -/
def perform (call : Caller κ ω) : Request κ → Control κ ω Answer
  | .register k => .observer <$> register call k
  | .unregister id => .flag <$> unregister call id
  | .setPaused id paused => .flag <$> setPaused call id paused
  | .isPaused id => return .flag? ((← get).frames.isPaused? id)
  | .onPause id k => do
    let frames := (← get).frames
    setFrames (frames.modify id fun o => { o with onPause := some k })
    return .flag (frames.observers.contains id)
  | .onClock k => do
    modify fun w => { w with frames := { w.frames with onClock := some k } }
    return .done
  | .tick now => .ticked <$> tick call now
  | .clearFrames => do
    clearFrames call
    return .done
  | .status => do
    let w ← get
    return .status w.frames.status w.keys.status
  | .bind chord k => do
    let (replaced, keys) := (← get).keys.bind chord k
    setKeys keys
    return .flag replaced
  | .unbind chord => do
    let (there, keys) := (← get).keys.unbind chord
    setKeys keys
    return .flag there
  | .isBound chord => return .flag ((← get).keys.isBound chord)
  | .observeKeys k => do
    let (id, keys) := (← get).keys.addObserver k
    setKeys keys
    return .keyObserver id
  | .ignoreKeys id => do
    let (there, keys) := (← get).keys.removeObserver id
    setKeys keys
    return .flag there
  | .dispatch event => .dispatched <$> dispatch call event
  | .clearKeys => do
    setKeys (← get).keys.clear
    return .done
  | .preventDefault => do
    modify fun w => { w with prevented := true }
    return .done

mutual

/-- Calls a callback and serves its requests until it returns. -/
def call (b : Behaviour κ ω) : Nat → κ → Signal → Control κ ω Unit
  | 0, _, _ => throw .exhausted
  | budget + 1, k, signal => do
    modify fun w => { w with client := b.enter k signal w.client }
    serve b budget k
    modify fun w => { w with client := b.leave k w.client }

/-- Serves the requests of a callback that is running. -/
def serve (b : Behaviour κ ω) : Nat → κ → Control κ ω Unit
  | 0, _ => throw .exhausted
  | budget + 1, k => do
    match b.request k (← get).client with
    | none => return
    | some (r, client) =>
      modify fun w => { w with client := client }
      let a ← perform (call b budget) r
      modify fun w => { w with client := b.answer k a w.client }
      serve b budget k

end

/-- Answers a request that comes from outside any callback. -/
def run (b : Behaviour κ ω) (budget : Nat) (r : Request κ) : Control κ ω Answer :=
  perform (call b budget) r

end Control

end ViewHost
