import ViewHost.Control.Run
import ViewHost.Delivery.Queue
import ViewHost.Host.Config
import ViewHost.Hover.Tracker
import ViewHost.Readout.Hud
import ViewHost.Touch.Tracker
import ViewHost.Tree.Command

/-!
# The host

A host holds a view tree, the touches on it, the path of views hovered over, the
frame scheduler, the shortcut registry, and the queue on which it reports.

What it reports passes through three places in order: updates are pending in the
touch tracker, are sealed in the outbox when a hover change has to go behind
them, and leave for the queue when a frame begins. The frame observer that moves
them on is the host's own. It is paused while there is nothing to move, so that
an idle host needs no clock, and nobody else can name it.
-/

namespace ViewHost

variable {α κ ω : Type} [Scalar α]

/-- What a host reports. -/
inductive Outbound (α : Type) where
  | touches (batch : TouchBatch α)
  /-- The path hovered over has changed, or the cursor for it has. -/
  | hover (timestamp : Timestamp) (changes : List HoverChange) (cursor : Cursor)
  deriving DecidableEq

/-- A callback on a host's control thread. -/
inductive HostCallback (κ : Type) where
  /-- Moves what is pending on to the queue. -/
  | flush
  | client (k : κ)

/-- What the host's own frame observer works on, and the state of all other
callbacks. -/
structure Shared (α ω : Type) where
  touches : TouchTracker α
  /-- Oldest first. Updates pending in the tracker are newer than all of it. -/
  outbox : List (Outbound α)
  outbound : DeliveryQueue (Outbound α)
  /-- Oldest first. -/
  notices : List Notice
  client : ω

namespace Shared

def hasPending (s : Shared α ω) : Bool := s.touches.hasPending || !s.outbox.isEmpty

/-- Puts the pending updates behind what is in the outbox. -/
def sealPending (s : Shared α ω) : Shared α ω :=
  let (batch, touches) := s.touches.flush
  { s with touches := touches, outbox := s.outbox ++ batch.toList.map .touches }

/-- Moves everything on to the queue. -/
def flush (s : Shared α ω) : Shared α ω :=
  let s := s.sealPending
  let (notices, outbound) := s.outbound.pushAll s.outbox
  { s with outbox := [], outbound := outbound, notices := s.notices ++ notices }

/-- Takes over a result of the touch tracker. -/
def track {β : Type} (s : Shared α ω) (result : β × List Notice × TouchTracker α) : Shared α ω :=
  { s with touches := result.2.2, notices := s.notices ++ result.2.1 }

end Shared

structure Host (α κ ω : Type) where
  config : HostConfig α
  tree : Tree α
  hover : HoverTracker
  /-- The cursor reported last. -/
  cursor : Cursor
  /-- The host's own frame observer. -/
  flush : ObserverId
  world : World (HostCallback κ) (Shared α ω)
  /-- Nothing is reported any more. -/
  isClosed : Bool

namespace Host

def new (root : Tag) (config : HostConfig α) (client : ω) : Host α κ ω :=
  let shared : Shared α ω :=
    { touches := (TouchTracker.new root).withEpsilon config.stationaryEpsilon
      outbox := []
      outbound := .new config.backlogWarning
      notices := []
      client := client }
  let (flush, frames) := (FrameScheduler.new config.frameInterval).add HostCallback.flush
  { config := config
    tree := .empty
    hover := .new
    cursor := .default
    flush := flush
    world :=
      { frames := frames.modify flush fun o => { o with paused := true }
        keys := .empty
        prevented := false
        client := shared }
    isClosed := false }

def shared (h : Host α κ ω) : Shared α ω := h.world.client

def setShared (h : Host α κ ω) (s : Shared α ω) : Host α κ ω :=
  { h with world := { h.world with client := s } }

def root (h : Host α κ ω) : Tag := h.shared.touches.root

/-- The deepest view hovered over. -/
def hovered? (h : Host α κ ω) : Option Tag := h.hover.target?

/-- The cursor for the path hovered over, in the tree as it is now. -/
def currentCursor (h : Host α κ ω) : Cursor := h.hover.cursor h.tree

/-- Items that the consumer has not taken. -/
def backlog (h : Host α κ ω) : Nat := h.shared.outbound.backlog

/-- Changes the tree. Views that are destroyed are not hovered over. -/
def apply (h : Host α κ ω) (c : Command α) : Except TreeError (Host α κ ω) := do
  let tree ← h.tree.apply c
  match c with
  | .remove _ => return { h with tree := tree, hover := h.hover.retainExisting tree }
  | _ => return { h with tree := tree }

/-- Changes the tree by one command after the other until one is refused. -/
def applyAll (h : Host α κ ω) : List (Command α) → Option TreeError × Host α κ ω
  | [] => (none, h)
  | c :: rest =>
    match h.apply c with
    | .ok h => h.applyAll rest
    | .error e => (some e, h)

def metrics (h : Host α κ ω) : Metrics where
  treeNodes := h.tree.size
  activeTouches := h.shared.touches.activeCount
  outboundBacklog := h.backlog
  frameObservers := h.world.frames.observerCount
  deliveredTicks := h.world.frames.delivered
  keyCommands := h.world.keys.commandCount

/-- The notices since they were last taken, and the host without them. -/
def takeNotices (h : Host α κ ω) : List Notice × Host α κ ω :=
  (h.shared.notices, h.setShared { h.shared with notices := [] })

/-- The consumer takes the oldest item. -/
def receive (h : Host α κ ω) : Option (Outbound α) × Host α κ ω :=
  let (item, q) := h.shared.outbound.receive
  (item, h.setShared { h.shared with outbound := q })

/-- The consumer takes all items. -/
def drain (h : Host α κ ω) : List (Outbound α) × Host α κ ω :=
  let (items, q) := h.shared.outbound.drain
  (items, h.setShared { h.shared with outbound := q })

/-- The consumer goes away. -/
def dropReceiver (h : Host α κ ω) : Host α κ ω :=
  h.setShared { h.shared with outbound := h.shared.outbound.dropReceiver }

/-- The host in one line. -/
def text (h : Host Float32 κ ω) : String :=
  "Host \x7b config: " ++ h.config.text ++ ", nodes: " ++ toString h.tree.size ++
    ", frames: " ++ h.world.frames.status.text ++ ", keys: " ++ h.world.keys.status.text ++ " \x7d"

end Host

end ViewHost
