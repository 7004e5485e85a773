import Mathlib.Algebra.Order.Group.Nat
import Mathlib.Data.List.TakeWhile
import ViewHost.Proofs.Delivery.Queue

/-!
# Queue sessions

A session is a queue together with what has become of the items that went through it. They
are received in the order in which they were pushed, or they are discarded when the consumer
gives up its end. What each call at either end answers can be told from the calls before it.
Closing ends the pushes and takes nothing away.
-/

namespace ViewHost

variable {ι : Type}

/-- A call at one of the two ends of a queue. -/
inductive QueueCall (ι : Type) where
  | push (item : ι)
  | close
  /-- Takes the oldest item if there is one now. To wait for no time is no different. -/
  | receive
  | drain
  | dropReceiver

namespace QueueCall

/-- No item that is pushed after this call is taken in. -/
def isEnd : QueueCall ι → Bool
  | close | dropReceiver => true
  | _ => false

def item? : QueueCall ι → Option ι
  | push item => some item
  | _ => none

/-- The items that are pushed before the queue is closed and while its receiver is there. -/
def accepted (calls : List (QueueCall ι)) : List ι :=
  (calls.takeWhile (!·.isEnd)).filterMap item?

variable {calls : List (QueueCall ι)} {c : QueueCall ι}

theorem takeWhile_eq_self_iff : calls.takeWhile (!·.isEnd) = calls ↔
    close ∉ calls ∧ dropReceiver ∉ calls := by
  rw [List.takeWhile_eq_self_iff]
  constructor
  · intro hopen
    exact ⟨fun hclose => Bool.noConfusion (hopen _ hclose), fun hdrop =>
      Bool.noConfusion (hopen _ hdrop)⟩
  · rintro ⟨hclose, hdrop⟩ c hc
    cases c with
    | close => exact absurd hc hclose
    | dropReceiver => exact absurd hc hdrop
    | _ => rfl

theorem accepted_concat (hopen : close ∉ calls ∧ dropReceiver ∉ calls) (c : QueueCall ι) :
    accepted (calls ++ [c]) = accepted calls ++ c.item?.toList := by
  have hself := takeWhile_eq_self_iff.2 hopen
  rw [accepted, List.takeWhile_append_of_pos (List.takeWhile_eq_self_iff.1 hself),
    List.filterMap_append, accepted, hself]
  cases c <;> rfl

theorem accepted_append (hended : close ∈ calls ∨ dropReceiver ∈ calls)
    (more : List (QueueCall ι)) : accepted (calls ++ more) = accepted calls := by
  have hshort : ¬ (calls.takeWhile (!·.isEnd)).length = calls.length := by
    intro hlength
    have hself := (List.takeWhile_prefix _).eq_of_length hlength
    obtain ⟨hclose, hdrop⟩ := takeWhile_eq_self_iff.1 hself
    exact hended.elim hclose hdrop
  rw [accepted, List.takeWhile_append, if_neg hshort, accepted]

/-- Only pushes bring items in. -/
theorem accepted_concat_of_no_item (calls : List (QueueCall ι)) (hc : c.item? = none) :
    accepted (calls ++ [c]) = accepted calls := by
  by_cases hopen : close ∉ calls ∧ dropReceiver ∉ calls
  · rw [accepted_concat hopen, hc]
    exact List.append_nil _
  · rw [not_and_or, not_not, not_not] at hopen
    exact accepted_append hopen [c]

end QueueCall

/-- A queue and what has become of the items that are no longer in it. -/
structure QueueSession (ι : Type) where
  queue : DeliveryQueue ι
  /-- Oldest first. -/
  received : List ι
  /-- What was in the queue when its receiver was dropped. -/
  discarded : List ι

namespace QueueSession

def start (threshold : Nat) : QueueSession ι := ⟨.new threshold, [], []⟩

/-- The session after a call. -/
def after (s : QueueSession ι) : QueueCall ι → QueueSession ι
  | .push item => { s with queue := (s.queue.push item).2 }
  | .close => { s with queue := s.queue.close }
  | .receive =>
    let (item, q) := s.queue.receive
    { s with queue := q, received := s.received ++ item.toList }
  | .drain =>
    let (items, q) := s.queue.drain
    { s with queue := q, received := s.received ++ items }
  | .dropReceiver =>
    { s with queue := s.queue.dropReceiver, discarded := s.discarded ++ s.queue.items }

def run (s : QueueSession ι) (calls : List (QueueCall ι)) : QueueSession ι := calls.foldl after s

/-- The session is what the calls so far have made of it. -/
structure Follows (calls : List (QueueCall ι)) (s : QueueSession ι) : Prop where
  isOpen : s.queue.isOpen = true ↔ .close ∉ calls
  hasReceiver : s.queue.hasReceiver = true ↔ .dropReceiver ∉ calls
  items : s.received ++ s.discarded ++ s.queue.items = QueueCall.accepted calls
  pushed : s.queue.pushed = (QueueCall.accepted calls).length
  kept : .dropReceiver ∉ calls → s.discarded = []
  gone : .dropReceiver ∈ calls → s.queue.items = []

variable {s s' : QueueSession ι} {calls : List (QueueCall ι)} {c : QueueCall ι}

namespace Follows

theorem start (threshold : Nat) : Follows [] (start threshold : QueueSession ι) where
  isOpen := ⟨fun _ => List.not_mem_nil, fun _ => rfl⟩
  hasReceiver := ⟨fun _ => List.not_mem_nil, fun _ => rfl⟩
  items := rfl
  pushed := rfl
  kept _ := rfl
  gone _ := rfl

theorem live_iff (h : Follows calls s) :
    s.queue.Live ↔ .close ∉ calls ∧ .dropReceiver ∉ calls := by
  rw [← h.isOpen, ← h.hasReceiver]
  exact ⟨fun hq => ⟨hq.isOpen, hq.hasReceiver⟩, fun hq => ⟨hq.1, hq.2⟩⟩

/-- A call that gives up neither end has only the items to get right. -/
theorem of_ends (h : Follows calls s) (hend : c.isEnd = false)
    (hopen : s'.queue.isOpen = s.queue.isOpen)
    (hreceiver : s'.queue.hasReceiver = s.queue.hasReceiver)
    (hdiscarded : s'.discarded = s.discarded)
    (hitems : s'.received ++ s.discarded ++ s'.queue.items = QueueCall.accepted (calls ++ [c]))
    (hpushed : s'.queue.pushed = (QueueCall.accepted (calls ++ [c])).length)
    (hgone : .dropReceiver ∈ calls → s'.queue.items = []) : Follows (calls ++ [c]) s' := by
  have hclose : .close ∈ calls ++ [c] ↔ .close ∈ calls := by
    rw [List.mem_append, List.mem_singleton, or_iff_left]
    rintro rfl
    cases hend
  have hdrop : .dropReceiver ∈ calls ++ [c] ↔ .dropReceiver ∈ calls := by
    rw [List.mem_append, List.mem_singleton, or_iff_left]
    rintro rfl
    cases hend
  exact
    { isOpen := by rw [hopen, hclose, h.isOpen]
      hasReceiver := by rw [hreceiver, hdrop, h.hasReceiver]
      items := by rw [hdiscarded, hitems]
      pushed := hpushed
      kept := by rw [hdiscarded, hdrop]; exact h.kept
      gone := by rw [hdrop]; exact hgone }

/-- Items are taken from the front of the queue. -/
theorem take (h : Follows calls s) (hitem : c.item? = none) (hend : c.isEnd = false)
    {items rest : List ι} (hitems : s.queue.items = items ++ rest) :
    Follows (calls ++ [c]) ⟨{ s.queue with items := rest }, s.received ++ items, s.discarded⟩ := by
  have haccepted := QueueCall.accepted_concat_of_no_item calls hitem
  have hgone : .dropReceiver ∈ calls → items = [] ∧ rest = [] := fun hgone =>
    List.append_eq_nil_iff.1 (hitems.symm.trans (h.gone hgone))
  refine h.of_ends hend rfl rfl rfl ?_ (haccepted ▸ h.pushed) fun hgone' => (hgone hgone').2
  rw [haccepted, ← h.items, hitems]
  by_cases hdrop : .dropReceiver ∈ calls
  · simp [hgone hdrop]
  · simp [h.kept hdrop]

theorem push (h : Follows calls s) (item : ι) :
    Follows (calls ++ [.push item]) { s with queue := (s.queue.push item).2 } := by
  by_cases hlive : s.queue.Live
  · obtain ⟨warned, hpush⟩ := hlive.push_eq item
    have hopen := h.live_iff.1 hlive
    have haccepted : QueueCall.accepted (calls ++ [.push item]) =
        QueueCall.accepted calls ++ [item] := QueueCall.accepted_concat hopen _
    rw [hpush]
    refine h.of_ends rfl rfl rfl rfl ?_ ?_ fun hgone => absurd hgone hopen.2
    · rw [haccepted, ← h.items, List.append_assoc _ _ [item]]
    · rw [haccepted, List.length_append, ← h.pushed]
      rfl
  · have hended : .close ∈ calls ∨ .dropReceiver ∈ calls := by
      rwa [h.live_iff, not_and_or, not_not, not_not] at hlive
    have haccepted := QueueCall.accepted_append hended [.push item]
    rw [DeliveryQueue.push_of_not_live hlive]
    exact h.of_ends rfl rfl rfl rfl (haccepted ▸ h.items) (haccepted ▸ h.pushed) h.gone

theorem close (h : Follows calls s) :
    Follows (calls ++ [.close]) { s with queue := s.queue.close } := by
  have haccepted := QueueCall.accepted_concat_of_no_item calls (c := .close) rfl
  have hdrop : .dropReceiver ∈ calls ++ [.close] ↔ .dropReceiver ∈ calls := by simp
  exact
    { isOpen := by simp [DeliveryQueue.close]
      hasReceiver := by rw [hdrop]; exact h.hasReceiver
      items := by rw [haccepted, DeliveryQueue.items_close, h.items]
      pushed := haccepted ▸ h.pushed
      kept := by rw [hdrop]; exact h.kept
      gone := by rw [hdrop]; exact h.gone }

theorem dropReceiver (h : Follows calls s) : Follows (calls ++ [.dropReceiver])
    { s with queue := s.queue.dropReceiver, discarded := s.discarded ++ s.queue.items } := by
  have haccepted := QueueCall.accepted_concat_of_no_item calls (c := .dropReceiver) rfl
  have hclose : .close ∈ calls ++ [.dropReceiver] ↔ .close ∈ calls := by simp
  exact
    { isOpen := by rw [hclose]; exact h.isOpen
      hasReceiver := by simp [DeliveryQueue.dropReceiver]
      items := by
        rw [haccepted, ← h.items, DeliveryQueue.items_dropReceiver, List.append_nil,
          ← List.append_assoc]
      pushed := haccepted ▸ h.pushed
      kept := by simp
      gone := fun _ => s.queue.items_dropReceiver }

theorem after (h : Follows calls s) (c : QueueCall ι) : Follows (calls ++ [c]) (s.after c) := by
  cases c with
  | push item => exact h.push item
  | close => exact h.close
  | receive =>
    rw [QueueSession.after, DeliveryQueue.receive_eq]
    refine h.take rfl rfl ?_
    cases s.queue.items <;> rfl
  | drain => exact h.take rfl rfl (List.append_nil _).symm
  | dropReceiver => exact h.dropReceiver

theorem run (h : Follows calls s) (more : List (QueueCall ι)) :
    Follows (calls ++ more) (s.run more) := by
  induction more generalizing calls s with
  | nil => rwa [List.append_nil]
  | cons c more ih =>
    rw [List.append_cons]
    exact ih (h.after c)

/-- While the receiver is there, what has been received and what is queued are all that was
accepted. -/
theorem items_eq (h : Follows calls s) (hdrop : .dropReceiver ∉ calls) :
    s.received ++ s.queue.items = QueueCall.accepted calls := by
  rw [← h.items, h.kept hdrop, List.append_nil]

end Follows

/-- Nothing that has been received is taken back. -/
theorem received_prefix_run (s : QueueSession ι) (calls : List (QueueCall ι)) :
    s.received <+: (s.run calls).received := by
  induction calls generalizing s with
  | nil => exact List.prefix_rfl
  | cons c calls ih =>
    refine List.IsPrefix.trans ?_ (ih (s.after c))
    cases c with
    | receive => exact List.prefix_append _ _
    | drain => exact List.prefix_append _ _
    | _ => exact List.prefix_rfl

/-- From a queue that is closed and empty nothing comes any more. -/
theorem run_of_drained (hclosed : s.queue.isOpen = false) (hnil : s.queue.items = [])
    (calls : List (QueueCall ι)) :
    (s.run calls).queue.items = [] ∧ (s.run calls).received = s.received := by
  induction calls generalizing s with
  | nil => exact ⟨hnil, rfl⟩
  | cons c calls ih =>
    obtain ⟨hclosed', hnil', hreceived⟩ : (s.after c).queue.isOpen = false ∧
        (s.after c).queue.items = [] ∧ (s.after c).received = s.received := by
      cases c with
      | push item =>
        have hdead : ¬ s.queue.Live := fun hlive => by simp [hlive.isOpen] at hclosed
        rw [after, DeliveryQueue.push_of_not_live hdead]
        exact ⟨hclosed, hnil, rfl⟩
      | close => exact ⟨rfl, s.queue.items_close.trans hnil, rfl⟩
      | receive =>
        rw [after, DeliveryQueue.receive_eq, hnil]
        exact ⟨hclosed, rfl, List.append_nil _⟩
      | drain =>
        refine ⟨hclosed, rfl, ?_⟩
        rw [after, DeliveryQueue.drain, hnil]
        exact List.append_nil _
      | dropReceiver => exact ⟨hclosed, s.queue.items_dropReceiver, rfl⟩
    exact hreceived ▸ ih hclosed' hnil'

/-- Whatever is called at either end: the items received, then those discarded with the receiver,
then those still queued are the items pushed before the queue was closed and while its receiver
was there, and they are counted. While the receiver is there nothing is discarded, the queue is
as long as there are items pushed and not received, the producer is told so until the queue is
closed, and the consumer gets the items that it has not received, in order. When the receiver is
gone, nothing is queued. Closing takes nothing away and lets nothing in: the consumer goes on to
get what was queued, and once that is received, nothing more. -/
theorem accepted_in_order (threshold : Nat) (calls : List (QueueCall ι)) :
    let s := (start threshold : QueueSession ι).run calls
    let accepted := QueueCall.accepted calls
    s.received ++ s.discarded ++ s.queue.items = accepted ∧
    s.queue.pushed = accepted.length ∧
    (.dropReceiver ∉ calls →
      s.discarded = [] ∧
      s.queue.length = s.queue.pushed - s.received.length ∧
      (.close ∉ calls → s.queue.backlog = s.queue.length) ∧
      s.queue.receive.1 = accepted[s.received.length]? ∧
      s.queue.drain.1 = accepted.drop s.received.length) ∧
    (.dropReceiver ∈ calls → s.queue.items = [] ∧ s.queue.backlog = 0) ∧
    (.close ∈ calls → s.queue.backlog = 0 ∧
      ∀ more, let s' := s.run more
        s.received <+: s'.received ∧
        s'.received ++ s'.discarded ++ s'.queue.items = accepted ∧
        s'.queue.pushed = s.queue.pushed ∧
        (s.queue.items = [] → s'.queue.receive.1 = none ∧ s'.received = s.received)) := by
  intro s accepted
  have h : Follows calls s := (Follows.start threshold).run calls
  refine ⟨h.items, h.pushed, fun hdrop => ?_, fun hdrop => ?_, fun hclose => ?_⟩
  · have hitems := h.items_eq hdrop
    have hrest : s.queue.items = accepted.drop s.received.length := by
      rw [show accepted = _ from hitems.symm, List.drop_left]
    refine ⟨h.kept hdrop, ?_, fun hclose => ?_, ?_, hrest⟩
    · rw [h.pushed, ← hitems, List.length_append, Nat.add_sub_cancel_left]
      rfl
    · rw [DeliveryQueue.backlog, if_pos (h.isOpen.2 hclose)]
    · rw [DeliveryQueue.receive_eq, hrest, List.head?_drop]
  · have hnil := h.gone hdrop
    refine ⟨hnil, ?_⟩
    rw [DeliveryQueue.backlog, DeliveryQueue.length, hnil]
    exact ite_self 0
  · have hclosed : s.queue.isOpen = false :=
      Bool.not_eq_true _ ▸ mt h.isOpen.1 (not_not_intro hclose)
    refine ⟨by rw [DeliveryQueue.backlog, hclosed, if_neg Bool.false_ne_true], fun more => ?_⟩
    intro s'
    have h' : Follows (calls ++ more) s' := h.run more
    have haccepted : QueueCall.accepted (calls ++ more) = accepted :=
      QueueCall.accepted_append (.inl hclose) more
    refine ⟨s.received_prefix_run more, haccepted ▸ h'.items, ?_, fun hnil => ?_⟩
    · rw [h'.pushed, haccepted, h.pushed]
    · obtain ⟨hnil', hreceived⟩ := run_of_drained hclosed hnil more
      exact ⟨by rw [DeliveryQueue.receive_eq, hnil', List.head?_nil], hreceived⟩

/-- An item that is queued when the receiver goes away has been accepted, and it is neither
received nor queued any more. The producer, whose end is open, is told that nothing waits. -/
theorem discarded_with_receiver :
    let calls : List (QueueCall Nat) := [.push 1, .dropReceiver]
    let s := (start 8 : QueueSession Nat).run calls
    s.received ++ s.queue.items ≠ QueueCall.accepted calls ∧
      s.queue.backlog ≠ s.queue.pushed - s.received.length := by
  decide

end QueueSession

end ViewHost
