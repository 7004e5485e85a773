import ViewHost.Tree.HitTest
import ViewHost.Tree.Path
import ViewHost.Notice

/-!
# Touches

A touch is one contact from the moment it goes down until it ends or is
cancelled. The view it hits when it goes down is its target for good, even if
the pointer leaves that view or the view leaves the tree; the touch keeps the
view's tag and the last known map into its space.

The updates of touches with a target queue up in the order they happen and are
handed out in batches. A touch that hit nothing is followed in silence.
-/

namespace ViewHost

variable {α : Type} [Scalar α]

/-- The identifier of a touch. Zero is not one. -/
structure TouchId where
  val : UInt64
  deriving DecidableEq, Inhabited, Repr

namespace TouchId

def text (i : TouchId) : String := "touch " ++ toString i.val.toNat

end TouchId

inductive TouchPhase where
  | began
  | moved
  | stationary
  | ended
  | cancelled
  deriving DecidableEq, Inhabited, Repr

namespace TouchPhase

/-- Whether a touch is over after this phase. -/
def isTerminal : TouchPhase → Bool
  | ended | cancelled => true
  | began | moved | stationary => false

def name : TouchPhase → String
  | began => "Began"
  | moved => "Moved"
  | stationary => "Stationary"
  | ended => "Ended"
  | cancelled => "Cancelled"

end TouchPhase

/-- The state of a touch. -/
structure Touch (α : Type) where
  id : TouchId
  pointer : PointerId
  kind : PointerKind
  phase : TouchPhase
  /-- The root under which the touch began. -/
  root : Tag
  target : Option Tag
  /-- Where the touch is in the target's space, or in the root's if there is no
  target. -/
  location : Vec2 α
  rootLocation : Vec2 α
  timestamp : Timestamp
  /-- The last known map from the root's space into the target's. -/
  toTarget : Transform α
  deriving DecidableEq

/-- An update of a touch, for its target. -/
structure TouchEvent (α : Type) where
  identifier : TouchId
  phase : TouchPhase
  location : Vec2 α
  rootLocation : Vec2 α
  timestamp : Timestamp
  target : Tag
  deriving DecidableEq

/-- Updates handed out together, oldest first. Batches count from one. -/
structure TouchBatch (α : Type) where
  sequence : Nat
  events : List (TouchEvent α)
  deriving DecidableEq

namespace Touch

/-- The update that announces the present state of a touch. -/
def event? (r : Touch α) : Option (TouchEvent α) :=
  r.target.map fun target =>
    { identifier := r.id, phase := r.phase, location := r.location
      rootLocation := r.rootLocation, timestamp := r.timestamp, target := target }

/-- Whether a cancellation is about this touch. -/
def selectedBy (r : Touch α) : CancelReason → Bool
  | .focusLost | .system => true
  | .contact p => r.pointer = p
  | .root tag => r.root = tag

/-- The touch at another place. The map to the target is looked up anew, and
the last known one is kept where there is none. -/
def relocate (r : Touch α) (tree : Tree α) (point : Vec2 α) (at_ : Timestamp) : Touch α :=
  let known :=
    match r.target with
    | some target =>
      match tree.rootToLocal r.root target with
      | .ok m => m
      | .error _ => r.toTarget
    | none => r.toTarget
  { r with
    toTarget := known
    location := known.applyToPoint point
    rootLocation := point
    timestamp := at_ }

end Touch

/-- The touches that are down, and the updates not yet handed out. -/
structure TouchTracker (α : Type) where
  /-- New touches look for their target below this view. -/
  root : Tag
  /-- The touches by their pointers, in no particular order. -/
  active : List (PointerId × Touch α)
  /-- The identifier to issue next; zero once all have been issued. -/
  nextId : UInt64
  pending : List (TouchEvent α)
  /-- The number of batches handed out. -/
  batches : Nat
  /-- A shorter move counts as none. -/
  epsilon : α

namespace TouchTracker

def new (root : Tag) : TouchTracker α := ⟨root, [], 1, [], 0, 0⟩

def withEpsilon (t : TouchTracker α) (epsilon : α) : TouchTracker α :=
  { t with epsilon := Scalar.clampNeg epsilon }

def setRoot (t : TouchTracker α) (root : Tag) : TouchTracker α := { t with root := root }

/-- The touch of a pointer. -/
def touch? (t : TouchTracker α) (p : PointerId) : Option (Touch α) := t.active.lookup p

def activeCount (t : TouchTracker α) : Nat := t.active.length

/-- The touches in whatever order they are kept. -/
def touches (t : TouchTracker α) : List (Touch α) := t.active.map (·.2)

/-- The touches by identifier. -/
def activeTouches (t : TouchTracker α) : List (Touch α) :=
  t.touches.mergeSort fun a b => a.id.val ≤ b.id.val

def hasPending (t : TouchTracker α) : Bool := !t.pending.isEmpty

/-- Queues the update for a touch. -/
def announce (t : TouchTracker α) (r : Touch α) : TouchTracker α :=
  { t with pending := t.pending ++ r.event?.toList }

/-- Takes the touch of a pointer off the table. -/
def release (t : TouchTracker α) (p : PointerId) : TouchTracker α :=
  { t with active := t.active.filter (·.1 ≠ p) }

/-- Puts a touch on the table for a pointer, in place of the one it had. -/
def hold (t : TouchTracker α) (p : PointerId) (r : Touch α) : TouchTracker α :=
  { t.release p with active := (p, r) :: (t.release p).active }

/-- The identifier of a pointer's touch, or zero for a pointer without one. -/
def idOf (t : TouchTracker α) (p : PointerId) : UInt64 :=
  match t.touch? p with
  | some r => r.id.val
  | none => 0

/-- The pointers of the touches that a reason selects, by identifier. Each is
looked up again for its identifier. -/
def selected (t : TouchTracker α) (reason : CancelReason) : List PointerId :=
  ((t.touches.filter (·.selectedBy reason)).map (·.pointer)).mergeSort fun p q =>
    t.idOf p ≤ t.idOf q

/-- Cancels the touches of some pointers one after the other, where they are. A
pointer without a touch is passed over. -/
def cancelEach (t : TouchTracker α) (at_ : Timestamp) :
    List PointerId → List TouchId × TouchTracker α
  | [] => ([], t)
  | p :: rest =>
    match t.touch? p with
    | none => t.cancelEach at_ rest
    | some r =>
      let t := (t.release p).announce { r with phase := .cancelled, timestamp := at_ }
      let (ids, t) := t.cancelEach at_ rest
      (r.id :: ids, t)

/-- Cancels the touches that a reason selects, by identifier. -/
def cancel (t : TouchTracker α) (reason : CancelReason) (at_ : Timestamp) :
    List TouchId × TouchTracker α :=
  t.cancelEach at_ (t.selected reason)

/-- Looks for an identifier that no active touch holds, from `id` upwards and,
after the last, from one again. As many tries as there are touches, and one
more, are enough. -/
def freeId (taken : List TouchId) : Nat → UInt64 → UInt64
  | 0, id => if id = 0 then 1 else id
  | tries + 1, id =>
    let id := if id = 0 then 1 else id
    if ⟨id⟩ ∈ taken then freeId taken tries (id + 1) else id

/-- Issues an identifier. -/
def issueId (t : TouchTracker α) : TouchId × List Notice × TouchTracker α :=
  let id := freeId (t.touches.map (·.id)) t.active.length t.nextId
  (⟨id⟩, if id < t.nextId || t.nextId = 0 then [.identifiersExhausted] else [],
    { t with nextId := id + 1 })

/-- A pointer goes down. A touch it still has is cancelled first. -/
def down (t : TouchTracker α) (tree : Tree α) (p : PointerId) (kind : PointerKind)
    (point : Vec2 α) (at_ : Timestamp) : Touch α × List Notice × TouchTracker α :=
  let stale := (t.touch? p).isSome
  let t := if stale then (t.cancel (.contact p) at_).2 else t
  let (id, exhausted, t) := t.issueId
  let target := tree.hitTest point t.root
  let toTarget :=
    match target.map (tree.rootToLocal t.root) with
    | some (.ok m) => m
    | _ => .identity
  let r : Touch α :=
    { id := id, pointer := p, kind := kind, phase := .began, root := t.root, target := target
      location := toTarget.applyToPoint point, rootLocation := point, timestamp := at_
      toTarget := toTarget }
  (r, (if stale then [.downTwice p] else []) ++ exhausted, (t.announce r).hold p r)

/-- A pointer moves. -/
def move (t : TouchTracker α) (tree : Tree α) (p : PointerId) (point : Vec2 α)
    (at_ : Timestamp) : Option (Touch α) × List Notice × TouchTracker α :=
  match t.touch? p with
  | none => (none, [.moveUnknown p], t)
  | some r =>
    let moved := r.rootLocation.fartherThan point t.epsilon
    let r := { r with phase := if moved then .moved else .stationary }.relocate tree point at_
    (some r, [], (t.announce r).hold p r)

/-- A pointer goes up, and its touch ends. -/
def up (t : TouchTracker α) (tree : Tree α) (p : PointerId) (point : Vec2 α)
    (at_ : Timestamp) : Option (Touch α) × List Notice × TouchTracker α :=
  match t.touch? p with
  | none => (none, [.upUnknown p], t)
  | some r =>
    let r := { r with phase := .ended }.relocate tree point at_
    (some r, [], (t.announce r).release p)

/-- Hands out the pending updates, if there are any, as the next batch. -/
def flush (t : TouchTracker α) : Option (TouchBatch α) × TouchTracker α :=
  if t.pending.isEmpty then (none, t)
  else (some ⟨t.batches + 1, t.pending⟩, { t with pending := [], batches := t.batches + 1 })

end TouchTracker

end ViewHost
