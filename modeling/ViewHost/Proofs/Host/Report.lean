import Mathlib.Data.List.Chain
import ViewHost.Proofs.Host.Line
import ViewHost.Proofs.Touch.Pending

/-!
# Reports

Taken one at a time, the reports of a host are updates of touches and changes of
what is hovered over. A batch is no more than the updates in it, so to hand updates
out as a batch changes neither which reports there are nor their order, and no more
does moving items down the line.

Batches are numbered as they are handed out. Two of them never meet in the outbox:
one is only sealed there when a hover change is put behind it.
-/

namespace ViewHost

variable {α ω : Type}

/-- What a consumer hears, one thing at a time. -/
inductive Report (α : Type) where
  | touch (e : TouchEvent α)
  | hover (at_ : Timestamp) (changes : List HoverChange) (cursor : Cursor)
  deriving DecidableEq

namespace Outbound

def batch? : Outbound α → Option (TouchBatch α)
  | .touches batch => some batch
  | .hover .. => none

/-- The reports in an item. -/
def reports : Outbound α → List (Report α)
  | .touches batch => batch.events.map .touch
  | .hover at_ changes cursor => [.hover at_ changes cursor]

/-- The items are not two batches. -/
def Apart (item next : Outbound α) : Prop := item.batch? = none ∨ next.batch? = none

/-- The batches among some items, none of them empty, are those up to the `n`-th, in
order. -/
structure Numbered (items : List (Outbound α)) (n : Nat) : Prop where
  sequence : (items.filterMap batch?).map (·.sequence) = List.range' 1 n
  nonempty : ∀ batch ∈ items.filterMap batch?, batch.events ≠ []

namespace Numbered

variable {items : List (Outbound α)} {n : Nat}

/-- The next batch. -/
theorem batch (h : Numbered items n) {events : List (TouchEvent α)} (hevents : events ≠ []) :
    Numbered (items ++ [.touches ⟨n + 1, events⟩]) (n + 1) := by
  have hbatches : (items ++ [touches ⟨n + 1, events⟩]).filterMap batch? =
      items.filterMap batch? ++ [⟨n + 1, events⟩] := List.filterMap_append
  refine ⟨?_, fun b hb => ?_⟩
  · rw [hbatches, List.map_append, h.sequence, List.range'_1_concat, Nat.add_comm 1 n]
    rfl
  · rw [hbatches] at hb
    rcases List.mem_append.1 hb with hb | hb
    · exact h.nonempty b hb
    · rw [List.mem_singleton.1 hb]
      exact hevents

theorem hover (h : Numbered items n) (at_ : Timestamp) (changes : List HoverChange)
    (cursor : Cursor) : Numbered (items ++ [.hover at_ changes cursor]) n := by
  have hbatches : (items ++ [Outbound.hover at_ changes cursor]).filterMap batch? =
      items.filterMap batch? := by
    rw [List.filterMap_append]
    exact List.append_nil _
  exact ⟨hbatches ▸ h.sequence, hbatches ▸ h.nonempty⟩

end Numbered

end Outbound

theorem TouchTracker.flush_of_pending {t : TouchTracker α} (h : t.pending ≠ []) :
    t.flush =
      (some ⟨t.batches + 1, t.pending⟩, { t with pending := [], batches := t.batches + 1 }) :=
  if_neg (by simpa using h)

theorem TouchTracker.flush_of_pending_eq_nil {t : TouchTracker α} (h : t.pending = []) :
    t.flush = (none, t) :=
  if_pos (by simpa using h)

theorem TouchTracker.quiet_flush (t : TouchTracker α) : t.flush.2.quiet = t.quiet := by
  by_cases h : t.pending = []
  · rw [flush_of_pending_eq_nil h]
  · rw [flush_of_pending h]
    rfl

namespace Shared

variable {s s' : Shared α ω} {before : List (Outbound α)}

/-- The items that nobody has taken, oldest first. -/
def items (s : Shared α ω) : List (Outbound α) := s.outbound.items ++ s.outbox

/-- What there is still to hear, in order. -/
def reports (s : Shared α ω) : List (Report α) :=
  s.items.flatMap (·.reports) ++ s.touches.pending.map .touch

/-- No two batches meet in the outbox, not even if one more is put there. -/
def Spaced (s : Shared α ω) : Prop :=
  ∀ batch, (s.outbox ++ [Outbound.touches batch]).IsChain Outbound.Apart

theorem items_congr (h : s'.line = s.line) : s'.items = s.items := by
  simp only [line, Prod.mk.injEq] at h
  rw [items, items, h.2.1, h.2.2]

theorem reports_congr (h : s'.line = s.line) : s'.reports = s.reports := by
  rw [reports, reports, items_congr h, (Prod.mk.inj h).1]

theorem sealPending_of_pending (h : s.touches.pending ≠ []) :
    s.sealPending.items = s.items ++ [.touches ⟨s.touches.batches + 1, s.touches.pending⟩] ∧
      s.sealPending.outbox =
        s.outbox ++ [.touches ⟨s.touches.batches + 1, s.touches.pending⟩] ∧
      s.sealPending.touches.pending = [] ∧
      s.sealPending.touches.batches = s.touches.batches + 1 := by
  rw [sealPending, TouchTracker.flush_of_pending h]
  exact ⟨(List.append_assoc ..).symm, rfl, rfl, rfl⟩

theorem sealPending_of_pending_eq_nil (h : s.touches.pending = []) : s.sealPending = s := by
  rw [sealPending, TouchTracker.flush_of_pending_eq_nil h]
  change { s with outbox := s.outbox ++ [] } = s
  rw [List.append_nil]

theorem reports_of_pending_eq_nil (h : s.touches.pending = []) :
    s.reports = s.items.flatMap (·.reports) := by
  rw [reports, h]
  exact List.append_nil _

theorem pending_sealPending (s : Shared α ω) : s.sealPending.touches.pending = [] := by
  by_cases h : s.touches.pending = []
  · rw [sealPending_of_pending_eq_nil h, h]
  · exact (sealPending_of_pending h).2.2.1

theorem reports_sealPending (s : Shared α ω) : s.sealPending.reports = s.reports := by
  by_cases h : s.touches.pending = []
  · rw [sealPending_of_pending_eq_nil h]
  · obtain ⟨hitems, -, hpending, -⟩ := sealPending_of_pending h
    simp only [reports, hitems, hpending, List.flatMap_append, List.map_nil, List.append_nil]
    rw [List.flatMap_singleton]
    rfl

theorem numbered_sealPending (h : Outbound.Numbered (before ++ s.items) s.touches.batches) :
    Outbound.Numbered (before ++ s.sealPending.items) s.sealPending.touches.batches := by
  by_cases hpending : s.touches.pending = []
  · rwa [sealPending_of_pending_eq_nil hpending]
  · obtain ⟨hitems, -, -, hbatches⟩ := sealPending_of_pending hpending
    rw [hitems, hbatches, ← List.append_assoc]
    exact h.batch hpending

/-- What the next move takes to the queue has no two batches that meet. -/
theorem Spaced.waiting (h : s.Spaced) : s.waiting.IsChain Outbound.Apart := by
  rw [Shared.waiting]
  by_cases hpending : s.touches.pending = []
  · rw [sealPending_of_pending_eq_nil hpending]
    exact (h ⟨0, []⟩).left_of_append
  · rw [(sealPending_of_pending hpending).2.1]
    exact h _

theorem Spaced.hover (h : s.waiting.IsChain Outbound.Apart) (at_ : Timestamp)
    (changes : List HoverChange) (cursor : Cursor) (batch : TouchBatch α) :
    (s.waiting ++ [Outbound.hover at_ changes cursor] ++ [Outbound.touches batch]).IsChain
      Outbound.Apart := by
  rw [List.append_assoc]
  refine h.append (.cons_cons (.inl rfl) (.singleton _)) fun item _ next hnext => .inr ?_
  cases hnext
  rfl

/-- A move when nothing waits. -/
theorem line_flush_of_idle (hpending : s.touches.pending = []) (houtbox : s.outbox = []) :
    s.flush.line = s.line := by
  rw [line_flush, waiting, sealPending_of_pending_eq_nil hpending,
    TouchTracker.flush_of_pending_eq_nil hpending, houtbox, line, houtbox]
  rfl

/-- A move to a queue with a receiver takes the items there as they are. -/
theorem outbound_flush (hq : s.outbound.Live) :
    s.flush.outbound.items = s.outbound.items ++ s.waiting := hq.items_pushAll _

theorem items_flush (hq : s.outbound.Live) : s.flush.items = s.sealPending.items := by
  rw [items, outbound_flush hq]
  exact List.append_nil _

theorem reports_flush (hq : s.outbound.Live) : s.flush.reports = s.reports := by
  rw [reports, items_flush hq]
  exact reports_sealPending s

end Shared

end ViewHost
