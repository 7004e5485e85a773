import ViewHost.Notice

/-!
# Delivery

Outbound items wait in a queue between the thread that produces them and the
one that consumes them. Pushing never waits and never drops an item that
somebody can still take; when the consumer falls behind, the queue grows, and a
notice is given each time it grows past a threshold.
-/

namespace ViewHost

/-- A queue with its two ends, which a channel joins. The channel has room for any
number of items, gives them out in the order in which they came in, and loses none
but those that are in it when the receiver is dropped. -/
structure DeliveryQueue (ι : Type) where
  /-- Oldest first. -/
  items : List ι
  /-- The producer's end takes items. -/
  isOpen : Bool
  /-- The consumer's end is still there. -/
  hasReceiver : Bool
  threshold : Nat
  /-- The queue has been reported long and has not been seen short since. -/
  warned : Bool
  /-- The number of items ever taken in. -/
  pushed : Nat
  deriving DecidableEq

namespace DeliveryQueue

variable {ι : Type}

def new (threshold : Nat) : DeliveryQueue ι := ⟨[], true, true, threshold, false, 0⟩

def length (q : DeliveryQueue ι) : Nat := q.items.length

/-- Puts an item at the end. After closing, or when nobody is left to take it,
the item is discarded. -/
def push (q : DeliveryQueue ι) (item : ι) : List Notice × DeliveryQueue ι :=
  if q.isOpen && q.hasReceiver then
    let q := { q with items := q.items ++ [item], pushed := q.pushed + 1 }
    if q.length > q.threshold then
      (if q.warned then [] else [.backlog q.length q.threshold], { q with warned := true })
    else ([], { q with warned := false })
  else ([], q)

/-- Pushes items in order. -/
def pushAll (q : DeliveryQueue ι) (items : List ι) : List Notice × DeliveryQueue ι :=
  items.foldl (fun (notices, q) item =>
    let (more, q) := q.push item
    (notices ++ more, q)) ([], q)

/-- The number of items waiting, as the producer sees it. -/
def backlog (q : DeliveryQueue ι) : Nat := if q.isOpen then q.length else 0

/-- Ends the production. Items already queued can still be taken. -/
def close (q : DeliveryQueue ι) : DeliveryQueue ι := { q with isOpen := false }

/-- Takes the oldest item, if there is one. -/
def receive (q : DeliveryQueue ι) : Option ι × DeliveryQueue ι :=
  match q.items with
  | [] => (none, q)
  | item :: rest => (some item, { q with items := rest })

/-- Takes all items. -/
def drain (q : DeliveryQueue ι) : List ι × DeliveryQueue ι := (q.items, { q with items := [] })

/-- Gives up the consumer's end, and with it the items still queued. -/
def dropReceiver (q : DeliveryQueue ι) : DeliveryQueue ι :=
  { q with items := [], hasReceiver := false }

end DeliveryQueue

end ViewHost
