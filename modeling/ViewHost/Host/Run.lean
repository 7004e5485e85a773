import ViewHost.Control.Script
import ViewHost.Host.Basic
import ViewHost.Input.Event

/-!
# Running a host

Input, frames and the end of a host. Whatever is queued wakes the host's own
frame observer up, and after a frame it goes back to sleep if nothing is left.
-/

namespace ViewHost

variable {α κ ω : Type} [Scalar α]

namespace Host

/-- What the callbacks of a host do: its own moves items on, and the others do
as `b` says, but cannot name the host's own. -/
def behaviour (b : Behaviour κ ω) (flush : ObserverId) :
    Behaviour (HostCallback κ) (Shared α ω) where
  enter
    | .flush, _, s => s.flush
    | .client k, signal, s => { s with client := b.enter k signal s.client }
  request
    | .flush, _ => none
    | .client k, s => (b.request k s.client).map fun (r, client) =>
      ((r.sparing flush).map .client, { s with client := client })
  answer
    | .flush, _, s => s
    | .client k, a, s => { s with client := b.answer k a s.client }
  leave
    | .flush, s => s
    | .client k, s => { s with client := b.leave k s.client }

/-- An operation of a host. It keeps the host's state when it stops short. -/
abbrev Act (α κ ω : Type) := EStateM Halt (Host α κ ω)

namespace Act

/-- An operation of the control thread. -/
def control {β : Type} (b : Behaviour κ ω) (budget : Nat)
    (m : Caller (HostCallback κ) (Shared α ω) → Control (HostCallback κ) (Shared α ω) β) :
    Act α κ ω β := fun h =>
  match m (Control.call (behaviour b h.flush) budget) h.world with
  | .ok a w => .ok a { h with world := w }
  | .error e w => .error e { h with world := w }

def modifyShared (f : Shared α ω → Shared α ω) : Act α κ ω Unit :=
  modify fun h => h.setShared (f h.shared)

end Act

section

variable (b : Behaviour κ ω) (budget : Nat)

/-- Pauses the host's own frame observer or wakes it up. -/
def setFlushPaused (paused : Bool) : Act α κ ω Unit := do
  let flush := (← get).flush
  let _ ← Act.control b budget fun call => Control.setPaused call flush paused

/-- Wakes the host's own frame observer up if there is something to move. -/
def wakeFlush : Act α κ ω Unit := do
  if (← get).shared.hasPending then setFlushPaused b budget false

/-- Reports a change of the path hovered over, behind the updates of touches so
far, unless neither the path nor its cursor is news. -/
def queueHover (at_ : Timestamp) (changes : List HoverChange) : Act α κ ω Unit := do
  let h ← get
  let cursor := h.currentCursor
  if changes.isEmpty && cursor = h.cursor then return
  set { h with cursor := cursor }
  Act.modifyShared fun s =>
    let s := s.sealPending
    { s with outbox := s.outbox ++ [.hover at_ changes cursor] }
  wakeFlush b budget

/-- Follows a change of the hover tracker. -/
def hoverTo (at_ : Timestamp) (result : List HoverChange × HoverTracker) : Act α κ ω Unit := do
  modify fun h => { h with hover := result.2 }
  queueHover b budget at_ result.1

/-- Points new touches and hovering at another root. Touches that are down stay
with the root they began under. -/
def setRoot (root : Tag) (at_ : Timestamp) : Act α κ ω Unit := do
  Act.modifyShared fun s => { s with touches := s.touches.setRoot root }
  hoverTo b budget at_ (← get).hover.clear

/-- What a pointer event does to touches and hovering. A pointer that moves
without being in contact hovers, unless it is a finger. -/
def routePointer (e : PointerEvent α) : Act α κ ω Unit := do
  let h ← get
  match e.action with
  | .down _ =>
    Act.modifyShared fun s =>
      s.track (s.touches.down h.tree e.id e.kind e.position e.timestamp)
  | .move =>
    if (h.shared.touches.touch? e.id).isSome then
      Act.modifyShared fun s => s.track (s.touches.move h.tree e.id e.position e.timestamp)
    else if h.config.hoverTracking && e.kind ≠ .touch then
      hoverTo b budget e.timestamp (h.hover.update h.tree h.root e.position)
  | .up _ =>
    Act.modifyShared fun s => s.track (s.touches.up h.tree e.id e.position e.timestamp)
  | .cancel reason =>
    Act.modifyShared fun s => { s with touches := (s.touches.cancel reason e.timestamp).2 }
    if reason = .focusLost || reason = .system then
      hoverTo b budget e.timestamp h.hover.clear

def handlePointer (e : PointerEvent α) : Act α κ ω Unit := do
  routePointer b budget e
  wakeFlush b budget

def handleKey (e : KeyEvent) : Act α κ ω KeyDispatch :=
  Act.control b budget fun call => Control.dispatch call e

/-- Routes an input event. The answer is whether the platform is asked not to
handle it itself; only shortcuts ask for that. -/
def handleInput : InputEvent α → Act α κ ω Bool
  | .pointer e => do
    handlePointer b budget e
    return false
  | .key e => return (← handleKey b budget e).prevented

/-- A pulse of the clock. What has been queued since the last frame goes out on
this one if it is accepted. -/
def tick (now : Timestamp) : Act α κ ω (Option FrameTick) := do
  let tick ← Act.control b budget fun call => Control.tick call now
  if !(← get).shared.hasPending then setFlushPaused b budget true
  return tick

/-- A pulse of the clock, after which the consumer takes all items. -/
def pump (now : Timestamp) : Act α κ ω (List (Outbound α)) := do
  let _ ← tick b budget now
  modifyGet fun h => h.drain

/-- Moves out what is still queued, forgets every observer and shortcut, and
closes the queue. A second time does nothing. -/
def shutDown : Act α κ ω Unit := do
  if (← get).isClosed then return
  modify fun h => { h with isClosed := true }
  Act.modifyShared Shared.flush
  Act.control b budget Control.clearFrames
  modify fun h => { h with world := { h.world with keys := h.world.keys.clear } }
  Act.modifyShared fun s => { s with outbound := s.outbound.close }

/-- A request to the scheduler or the registry from outside any callback. -/
def request (r : Request κ) : Act α κ ω Answer := do
  let flush := (← get).flush
  Act.control b budget fun call => Control.perform call ((r.sparing flush).map .client)

end

/-- Takes a scripted step on the host's scheduler or registry. -/
def takeStep (budget : Nat) (step : Step) : Act α Routine Script Outcome := do
  let (r, s) := (← get).shared.client.ask step
  Act.modifyShared fun shared => { shared with client := s }
  let a ← request Script.behaviour budget r
  let (outcome, s) := (← get).shared.client.settle step a
  Act.modifyShared fun shared => { shared with client := s }
  return outcome

/-- The log of the host's scripted callbacks, and the host with an empty one. -/
def takeLog (h : Host α Routine Script) : List Entry × Host α Routine Script :=
  let (log, s) := h.shared.client.takeLog
  (log, h.setShared { h.shared with client := s })

end Host

end ViewHost
