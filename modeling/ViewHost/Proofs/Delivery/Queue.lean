import ViewHost.Delivery.Queue

/-!
# What a queue takes in

The items of a queue wait in a channel between its two ends. Four things are taken for
granted of that channel, each of them a lemma here, and whatever else is proved of queues
rests on them: it loses no item while its receiver is there, it gives the items out in
the order in which they came in, closing it takes none of them away, and those that wait
in it are gone with the receiver.

So an open queue whose receiver is there takes in every item, at its end, and gives them
out from its front.
-/

namespace ViewHost.DeliveryQueue

variable {ι : Type} {q : DeliveryQueue ι}

/-- The producer's end takes items and somebody can still take them out. -/
structure Live (q : DeliveryQueue ι) : Prop where
  isOpen : q.isOpen = true
  hasReceiver : q.hasReceiver = true

/-- The channel is first in, first out: the oldest item is the one that is taken. -/
theorem receive_eq (q : DeliveryQueue ι) :
    q.receive = (q.items.head?, { q with items := q.items.tail }) := by
  obtain ⟨items, isOpen, hasReceiver, threshold, warned, pushed⟩ := q
  cases items <;> rfl

/-- Closing the channel takes nothing away. -/
theorem items_close (q : DeliveryQueue ι) : q.close.items = q.items := rfl

/-- What waits in the channel is gone with its receiver. -/
theorem items_dropReceiver (q : DeliveryQueue ι) : q.dropReceiver.items = [] := rfl

/-- Unless a queue is live an item goes nowhere. -/
theorem push_of_not_live (hq : ¬ q.Live) (item : ι) : q.push item = ([], q) := by
  rw [DeliveryQueue.push, if_neg]
  intro h
  rw [Bool.and_eq_true] at h
  exact hq ⟨h.1, h.2⟩

namespace Live

theorem push_eq (hq : q.Live) (item : ι) : ∃ warned, (q.push item).2 =
    { q with items := q.items ++ [item], pushed := q.pushed + 1, warned := warned } := by
  simp only [DeliveryQueue.push, hq.isOpen, hq.hasReceiver, Bool.and_self, if_true]
  split
  · exact ⟨true, rfl⟩
  · exact ⟨false, rfl⟩

/-- The channel loses nothing: an item that is pushed waits behind all others. -/
theorem items_push (hq : q.Live) (item : ι) : (q.push item).2.items = q.items ++ [item] := by
  obtain ⟨warned, heq⟩ := hq.push_eq item
  rw [heq]

theorem push (hq : q.Live) (item : ι) : (q.push item).2.Live := by
  obtain ⟨warned, heq⟩ := hq.push_eq item
  rw [heq]
  exact ⟨hq.isOpen, hq.hasReceiver⟩

end Live

theorem pushAll_cons (q : DeliveryQueue ι) (item : ι) (items : List ι) :
    (q.pushAll (item :: items)).2 = ((q.push item).2.pushAll items).2 := by
  -- the notices given so far are not looked at
  have unnoticed : ∀ (items : List ι) (notices notices' : List Notice) (q : DeliveryQueue ι),
      (items.foldl (fun s item => (s.1 ++ (s.2.push item).1, (s.2.push item).2)) (notices, q)).2 =
        (items.foldl (fun s item => (s.1 ++ (s.2.push item).1, (s.2.push item).2))
          (notices', q)).2 := by
    intro items
    induction items with
    | nil => exact fun _ _ _ => rfl
    | cons item items ih => exact fun _ _ _ => ih _ _ _
  exact unnoticed items _ _ _

namespace Live

theorem items_pushAll (hq : q.Live) (items : List ι) :
    (q.pushAll items).2.items = q.items ++ items := by
  induction items generalizing q with
  | nil => exact (List.append_nil _).symm
  | cons item items ih =>
    rw [pushAll_cons, ih (hq.push item), hq.items_push, List.append_assoc, List.singleton_append]

theorem pushAll (hq : q.Live) (items : List ι) : (q.pushAll items).2.Live := by
  induction items generalizing q with
  | nil => exact hq
  | cons item items ih =>
    rw [pushAll_cons]
    exact ih (hq.push item)

end Live

end ViewHost.DeliveryQueue
