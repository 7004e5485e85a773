import ViewHost.Host.Run
import ViewHost.Proofs.Control.Keeps
import ViewHost.Proofs.Delivery.Queue

/-!
# The line of reports

A report waits in the tracker or the outbox until it is moved to the queue. Only the
host's own callback moves it, and that callback is with a frame observer and nowhere
else. So whatever the other callbacks do, an operation of the control thread leaves
the line of reports alone, or else a tick has been accepted and all that waited is in
the queue.
-/

namespace ViewHost

variable {α κ ω : Type}

namespace Shared

variable {s s' : Shared α ω}

/-- The three places of a report. -/
def line (s : Shared α ω) : TouchTracker α × List (Outbound α) × DeliveryQueue (Outbound α) :=
  (s.touches, s.outbox, s.outbound)

/-- What the next move takes to the queue. -/
def waiting (s : Shared α ω) : List (Outbound α) := s.sealPending.outbox

theorem line_flush (s : Shared α ω) : s.flush.line =
    (s.touches.flush.2, [], (s.outbound.pushAll s.waiting).2) := rfl

theorem line_flush_congr (h : s'.line = s.line) : s'.flush.line = s.flush.line := by
  simp only [line, Prod.mk.injEq] at h
  obtain ⟨htouches, houtbox, houtbound⟩ := h
  simp only [line_flush, waiting, sealPending, htouches, houtbox, houtbound]

/-- Nothing waits after a move. -/
theorem waiting_flush (s : Shared α ω) : s.flush.waiting = [] := by
  have hflush : s.touches.flush.2.flush.1 = none := by
    by_cases hempty : s.touches.pending.isEmpty <;> simp [TouchTracker.flush, hempty]
  change [] ++ (s.touches.flush.2.flush.1).toList.map Outbound.touches = []
  rw [hflush]
  rfl

theorem line_flush_flush (s : Shared α ω) : s.flush.flush.line = s.flush.line := by
  have hflush : s.touches.flush.2.flush.2 = s.touches.flush.2 := by
    by_cases hempty : s.touches.pending.isEmpty <;> simp [TouchTracker.flush, hempty]
  rw [line_flush, waiting_flush]
  change (s.touches.flush.2.flush.2, [], s.flush.outbound) = s.flush.line
  rw [hflush]
  rfl

end Shared

namespace HostCallback

/-- Callbacks that leave the line alone. -/
def Tame : HostCallback κ → Prop
  | .flush => False
  | .client _ => True

/-- Nobody can ask for the host's own callback to be put anywhere. -/
theorem tame_map_client (r : Request κ) : (r.map HostCallback.client).Tame Tame := by
  cases r <;> exact trivial

end HostCallback

namespace Host

variable {w w' : World (HostCallback κ) (Shared α ω)}

/-- The line is as it was, or all has been moved to the queue. -/
def Moved (s s' : Shared α ω) : Prop := s'.line = s.line ∨ s'.line = s.flush.line

/-- What may happen within a tick. -/
def Inside (w w' : World (HostCallback κ) (Shared α ω)) : Prop :=
  w.frames.delivered ≤ w'.frames.delivered ∧ Moved w.client w'.client

/-- What may happen outside of ticks: to move anything takes one. -/
def Outside (w w' : World (HostCallback κ) (Shared α ω)) : Prop :=
  Inside w w' ∧ (w'.frames.delivered = w.frames.delivered → w'.client.line = w.client.line)

theorem Moved.trans {s s' s'' : Shared α ω} (h : Moved s s') (h' : Moved s' s'') : Moved s s'' := by
  rcases h with h | h
  · rcases h' with h' | h'
    · exact .inl (h'.trans h)
    · exact .inr (h'.trans (Shared.line_flush_congr h))
  · rcases h' with h' | h'
    · exact .inr (h'.trans h)
    · exact .inr (h'.trans ((Shared.line_flush_congr h).trans s.line_flush_flush))

theorem Inside.trans {u v w : World (HostCallback κ) (Shared α ω)} (h : Inside u v)
    (h' : Inside v w) : Inside u w :=
  ⟨Nat.le_trans h.1 h'.1, h.2.trans h'.2⟩

theorem inside_of_client (hclient : w'.client.line = w.client.line)
    (hdelivered : w'.frames.delivered = w.frames.delivered) : Inside w w' :=
  ⟨Nat.le_of_eq hdelivered.symm, .inl hclient⟩

theorem outside_of_client (hclient : w'.client.line = w.client.line)
    (hdelivered : w'.frames.delivered = w.frames.delivered) : Outside w w' :=
  ⟨inside_of_client hclient hdelivered, fun _ => hclient⟩

theorem Outside.trans {u v w : World (HostCallback κ) (Shared α ω)} (h : Outside u v)
    (h' : Outside v w) : Outside u w := by
  refine ⟨h.1.trans h'.1, fun hdelivered => ?_⟩
  have huv := h.1.1
  have hvw := h'.1.1
  rw [h'.2 (by omega), h.2 (by omega)]

theorem regime : Control.Regime (Outside (α := α) (κ := κ) (ω := ω)) Inside where
  outer := {
    trans := Outside.trans
    of_client := fun hclient => outside_of_client (congrArg Shared.line hclient) }
  inner := {
    trans := Inside.trans
    of_client := fun hclient => inside_of_client (congrArg Shared.line hclient) }
  weaken h := h.1
  ticked w w₁ w' hclient hdelivered h := by
    obtain ⟨hle, hmoved⟩ := h
    rw [hclient] at hmoved
    exact ⟨⟨by omega, hmoved⟩, fun heq => by omega⟩

/-- Nothing but a tick makes a host's callbacks touch the line. -/
theorem obeys_behaviour (b : Behaviour κ ω) (flush : ObserverId) :
    (behaviour (α := α) b flush).Obeys HostCallback.Tame Outside Inside where
  tame_request {k c r c'} hr := by
    cases k with
    | flush => cases hr
    | client k =>
      obtain ⟨asked, -, heq⟩ := Option.map_eq_some_iff.1 hr
      cases heq
      exact HostCallback.tame_map_client _
  enter {k} signal w hk := by
    cases k with
    | flush => exact hk.elim
    | client k => exact outside_of_client rfl rfl
  enterTick k id tick w := by
    cases k with
    | flush => exact ⟨Nat.le_refl _, .inr rfl⟩
    | client k => exact inside_of_client rfl rfl
  request {k w r c} hr := by
    cases k with
    | flush => cases hr
    | client k =>
      obtain ⟨asked, -, heq⟩ := Option.map_eq_some_iff.1 hr
      cases heq
      exact outside_of_client rfl rfl
  answer k a w := by
    cases k <;> exact outside_of_client rfl rfl
  leave k w := by
    cases k <;> exact outside_of_client rfl rfl

end Host

end ViewHost
