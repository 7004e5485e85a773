import Mathlib.Data.List.DropRight
import ViewHost.Proofs.Delivery.Session

/-!
# Notices of a long queue

A queue looks at its length when something is pushed and at no other time. What it remembers is
whether it was longer than its threshold after the last push, and it gives notice when it is
longer now and was not then. So every notice is given where a push takes the queue past its
threshold. Not every such push is noticed: if the queue was long after the push before, and the
consumer has shortened it to the threshold and no further, nothing has seen it short in between.
-/

namespace ViewHost

variable {ι : Type}

namespace DeliveryQueue

variable {q : DeliveryQueue ι}

theorem length_push (hq : q.Live) (item : ι) : (q.push item).2.length = q.length + 1 := by
  rw [length, hq.items_push, List.length_append]
  rfl

/-- What a push does about notices depends on the length that it leaves. -/
theorem push_eq_of_live (hq : q.Live) (item : ι) :
    q.push item =
      (if q.threshold < q.length + 1 ∧ q.warned = false then
        [.backlog (q.length + 1) q.threshold] else [],
      { q with
        items := q.items ++ [item]
        pushed := q.pushed + 1
        warned := decide (q.threshold < q.length + 1) }) := by
  simp only [push, hq.isOpen, hq.hasReceiver, Bool.and_self, if_true, length, List.length_append,
    List.length_singleton]
  by_cases hlong : q.threshold < q.items.length + 1
  · cases hwarned : q.warned <;> simp [hlong]
  · simp [hlong]

end DeliveryQueue

namespace QueueCall

theorem eq_push {c : QueueCall ι} {item : ι} (hc : c.item? = some item) : c = .push item := by
  cases c with
  | push item' =>
    cases hc
    rfl
  | _ => cases hc

/-- The calls up to the last push. -/
def throughPush (calls : List (QueueCall ι)) : List (QueueCall ι) :=
  calls.rdropWhile (·.item?.isNone)

theorem throughPush_push (calls : List (QueueCall ι)) (item : ι) :
    throughPush (calls ++ [.push item]) = calls ++ [.push item] :=
  List.rdropWhile_concat_neg _ _ _ Bool.false_ne_true

theorem throughPush_other (calls : List (QueueCall ι)) {c : QueueCall ι} (hc : c.item? = none) :
    throughPush (calls ++ [c]) = throughPush calls :=
  List.rdropWhile_concat_pos _ _ _ (by rw [hc]; rfl)

end QueueCall

namespace QueueSession

variable {s : QueueSession ι} {c : QueueCall ι}

/-- The notices that a call gives. -/
def notices (s : QueueSession ι) : QueueCall ι → List Notice
  | .push item => (s.queue.push item).1
  | _ => []

theorem notices_other (s : QueueSession ι) (hc : c.item? = none) : s.notices c = [] := by
  cases c with
  | push item => cases hc
  | _ => rfl

/-- How long the queue was right after the last push. -/
def lengthAtPush (threshold : Nat) (calls : List (QueueCall ι)) : Nat :=
  ((start threshold : QueueSession ι).run (QueueCall.throughPush calls)).queue.length

theorem run_concat (s : QueueSession ι) (calls : List (QueueCall ι)) (c : QueueCall ι) :
    s.run (calls ++ [c]) = (s.run calls).after c := List.foldl_concat ..

/-- Only a push makes the queue longer, or changes what is remembered of its length. -/
theorem after_other (s : QueueSession ι) (hc : c.item? = none) :
    (s.after c).queue.length ≤ s.queue.length ∧
      (s.after c).queue.warned = s.queue.warned ∧
      (s.after c).queue.threshold = s.queue.threshold ∧
      ((s.after c).queue.Live → s.queue.Live) := by
  cases c with
  | push item => cases hc
  | close => exact ⟨Nat.le_refl _, rfl, rfl, fun hlive => Bool.noConfusion hlive.isOpen⟩
  | receive =>
    rw [after, DeliveryQueue.receive_eq]
    refine ⟨?_, rfl, rfl, fun hlive => ⟨hlive.isOpen, hlive.hasReceiver⟩⟩
    exact (List.tail_sublist _).length_le
  | drain => exact ⟨Nat.zero_le _, rfl, rfl, fun hlive => ⟨hlive.isOpen, hlive.hasReceiver⟩⟩
  | dropReceiver =>
    exact ⟨Nat.zero_le _, rfl, rfl, fun hlive => Bool.noConfusion hlive.hasReceiver⟩

/-- What the queue remembers is whether the last push has left it past its threshold, with `n`
items. -/
structure Remembers (threshold n : Nat) (s : QueueSession ι) : Prop where
  threshold_eq : s.queue.threshold = threshold
  warned_eq : s.queue.Live → s.queue.warned = decide (threshold < n)
  length_le : s.queue.length ≤ n

namespace Remembers

variable {threshold n : Nat}

theorem other (h : Remembers threshold n s) (hc : c.item? = none) :
    Remembers threshold n (s.after c) := by
  obtain ⟨hlength, hwarned, hthreshold, hlive⟩ := s.after_other hc
  exact
    { threshold_eq := hthreshold.trans h.threshold_eq
      warned_eq := fun hlive' => hwarned.trans (h.warned_eq (hlive hlive'))
      length_le := hlength.trans h.length_le }

theorem push (h : Remembers threshold n s) (item : ι) :
    Remembers threshold (s.after (.push item)).queue.length (s.after (.push item)) := by
  by_cases hlive : s.queue.Live
  · refine ⟨?_, fun _ => ?_, Nat.le_refl _⟩
    · rw [after, DeliveryQueue.push_eq_of_live hlive]
      exact h.threshold_eq
    · show (s.queue.push item).2.warned = decide (threshold < (s.queue.push item).2.length)
      rw [DeliveryQueue.length_push hlive, DeliveryQueue.push_eq_of_live hlive, h.threshold_eq]
  · rw [after, DeliveryQueue.push_of_not_live hlive]
    exact ⟨h.threshold_eq, fun h => absurd h hlive, Nat.le_refl _⟩

theorem run (threshold : Nat) (calls : List (QueueCall ι)) :
    Remembers threshold (lengthAtPush threshold calls) ((start threshold).run calls) := by
  induction calls using List.reverseRecOn with
  | nil => exact ⟨rfl, fun _ => rfl, Nat.zero_le _⟩
  | append_singleton calls c ih =>
    cases hc : c.item? with
    | none =>
      rw [lengthAtPush, QueueCall.throughPush_other calls hc, run_concat]
      exact ih.other hc
    | some item =>
      obtain rfl := QueueCall.eq_push hc
      rw [lengthAtPush, QueueCall.throughPush_push, run_concat]
      exact ih.push item

end Remembers

/-- A call that takes the queue past its threshold is a push that finds it exactly that long. It
gives notice once, unless the queue was past the threshold right after the push before, in which
case the consumer has since brought it down to the threshold and no further. No other call gives
notice. -/
theorem notices_at_crossings (threshold : Nat) (calls : List (QueueCall ι)) (c : QueueCall ι) :
    let s := (start threshold : QueueSession ι).run calls
    let s' := s.after c
    (s.queue.length ≤ threshold ∧ threshold < s'.queue.length →
      s.queue.length = threshold ∧
        s.notices c = if lengthAtPush threshold calls ≤ threshold then
          [.backlog s'.queue.length threshold] else []) ∧
    (¬ (s.queue.length ≤ threshold ∧ threshold < s'.queue.length) → s.notices c = []) := by
  intro s s'
  have hs : Remembers threshold (lengthAtPush threshold calls) s := .run threshold calls
  cases hc : c.item? with
  | none =>
    have hlength : s'.queue.length ≤ s.queue.length := (s.after_other hc).1
    refine ⟨?_, fun _ => s.notices_other hc⟩
    rintro ⟨hshort, hlong⟩
    omega
  | some item =>
    obtain rfl := QueueCall.eq_push hc
    by_cases hlive : s.queue.Live
    · have hlength : s'.queue.length = s.queue.length + 1 := DeliveryQueue.length_push hlive item
      have hnotices : s.notices (.push item) =
          if threshold < s'.queue.length ∧ lengthAtPush threshold calls ≤ threshold then
            [.backlog s'.queue.length threshold] else [] := by
        rw [notices, DeliveryQueue.push_eq_of_live hlive, hs.warned_eq hlive, hs.threshold_eq,
          hlength]
        simp
      have hle : s.queue.length ≤ lengthAtPush threshold calls := hs.length_le
      rw [hnotices]
      constructor
      · rintro ⟨hshort, hlong⟩
        refine ⟨by omega, ?_⟩
        simp only [hlong, true_and]
      · intro hcrossing
        refine if_neg ?_
        rintro ⟨hlong, hpush⟩
        exact hcrossing ⟨hle.trans hpush, hlong⟩
    · have hsame : s' = s := by
        show s.after (.push item) = s
        rw [after, DeliveryQueue.push_of_not_live hlive]
      have hquiet : s.notices (.push item) = [] := by
        rw [notices, DeliveryQueue.push_of_not_live hlive]
      rw [hsame]
      refine ⟨?_, fun _ => hquiet⟩
      rintro ⟨hshort, hlong⟩
      omega

/-- The consumer takes one of two items and leaves as many as the threshold; the third push takes
the queue past it again and gives no notice. -/
theorem not_noticed_from_threshold :
    let s := (start 1 : QueueSession Nat).run [.push 1, .push 2, .receive]
    s.queue.length ≤ 1 ∧ 1 < (s.after (.push 3)).queue.length ∧ s.notices (.push 3) = [] := by
  decide

end QueueSession

end ViewHost
