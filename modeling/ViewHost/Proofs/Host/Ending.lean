import Mathlib
import ViewHost.Proofs.Host.Session

/-!
# The end of a host

When a host ends, what waits in the outbox and in the touch tracker goes to the queue
outside of any frame, in the order in which a frame would have taken it there, and the
queue is closed. There is nothing left then for the host's own callback to move, so that
whoever still holds on to the scheduler and the registry can use them as before, without
anything coming of it for the consumer.

The clock listener is called while the host ends, and this is the only callback that
can keep the end from being reached. What waited is in the queue by then.
-/

namespace ViewHost

open Run

variable {α κ ω : Type}

namespace Control

variable (call : Caller κ ω) (w : World κ ω)

/-- When the clock is looked at, nobody but its listener is called. -/
theorem completes_refreshClock (hlistener : ∀ running k, w.frames.refresh.1 = some running →
      w.frames.refresh.2.onClock = some k →
      completes (call k (.clock running)) { w with frames := w.frames.refresh.2 } = true) :
    completes (refreshClock call) w = true := by
  refine completes_get_bind (completes_modify_bind ?_)
  dsimp only
  split
  · next running k hchange hk => exact hlistener running k hchange hk
  · rfl

/-- To forget all frame observers can only stop a clock that runs. -/
theorem completes_clearFrames (hlistener : ∀ k, w.frames.running = true →
      w.frames.onClock = some k →
      completes (call k (.clock false)) { w with frames := w.frames.clear.refresh.2 } = true) :
    completes (clearFrames call) w = true := by
  refine completes_get_bind (completes_modify_bind (completes_refreshClock _ _ ?_))
  intro running k hchange hk
  change w.frames.clear.refresh.1 = some running at hchange
  change w.frames.clear.refresh.2.onClock = some k at hk
  rw [FrameScheduler.refresh] at hchange
  split at hchange
  · cases hchange
  next hother =>
  have hstops : w.frames.running = true := (Bool.eq_not.2 (Ne.symm hother)).trans rfl
  obtain rfl : false = running := Option.some.inj hchange
  rw [FrameScheduler.refresh, if_neg hother] at hk
  exact hlistener k hstops hk

end Control

namespace Shared

variable {s : Shared α ω}

/-- What waits are the items of the outbox, and a batch of what is pending. -/
theorem waiting_eq (s : Shared α ω) : s.waiting = s.outbox ++
    if s.touches.pending.isEmpty then []
    else [.touches ⟨s.touches.batches + 1, s.touches.pending⟩] := by
  by_cases h : s.touches.pending = []
  · rw [waiting, sealPending_of_pending_eq_nil h, h]
    exact (List.append_nil _).symm
  · rw [waiting, (sealPending_of_pending h).2.1, if_neg (by simpa using h)]

end Shared

/-- Batches are counted by their number. -/
theorem Outbound.Numbered.length_eq {items : List (Outbound α)} {n : Nat} (h : Numbered items n) :
    (items.filterMap batch?).length = n := by
  rw [← List.length_map (·.sequence), h.sequence, List.length_range']

namespace Host

variable {h : Host α κ ω} (b : Behaviour κ ω) (budget : Nat)

/-- A second end is none. -/
theorem shutDown_of_closed (hclosed : h.isClosed = true) :
    Host.shutDown b budget h = .ok () h := by
  unfold Host.shutDown
  exact congrFun (if_pos hclosed) _

theorem ends_letGo (h : Host α κ ω) : Ends (HostSession.letGo b budget) h fun _ h' =>
    h'.shared.outbound.isOpen = false :=
  Ends.bind fun _ _ _ => Ends.bind (ends_modify (ends_modify rfl))

theorem ends_shutDown (hopen : h.isClosed = false) :
    Ends (Host.shutDown b budget) h fun _ h' => h'.shared.outbound.isOpen = false := by
  intro u h' hrun
  rw [HostSession.shutDown_of_open b budget hopen] at hrun
  exact ends_letGo b budget _ u h' hrun

theorem completes_shutDown (hopen : h.isClosed = false)
    (hlistener : ∀ k, h.world.frames.running = true → h.world.frames.onClock = some k →
      completes (Control.call (behaviour b h.flush) budget k (.clock false))
        { (h.setShared h.shared.flush).world with frames := h.world.frames.clear.refresh.2 } =
          true) :
    completes (Host.shutDown b budget) h = true := by
  let h₁ : Host α κ ω := { h with isClosed := true }.setShared h.shared.flush
  have hclear : completes (Control.clearFrames (Control.call (behaviour b h.flush) budget))
      h₁.world = true := Control.completes_clearFrames _ _ hlistener
  obtain ⟨u, hclear⟩ := exists_eq_ok_of_completes hclear
  have hcontrol : completes (Act.control b budget Control.clearFrames : Act α κ ω Unit) h₁ =
      true := by
    rw [completes, Act.control]
    simp only [h₁, Host.setShared] at hclear ⊢
    rw [hclear]
  rw [completes, HostSession.shutDown_of_open b budget hopen]
  exact completes_bind hcontrol fun _ _ => rfl

end Host

namespace HostSession

variable {s : HostSession α κ ω} (b : Behaviour κ ω) (budget : Nat)

theorem taken_prefix_step (s : HostSession α κ ω) (m : Host.Act α κ ω (List (Outbound α))) :
    s.taken <+: (s.step m).taken := by
  rw [step]
  split
  · exact List.prefix_append _ _
  · exact List.prefix_rfl

variable [Scalar α]

theorem taken_prefix_after (s : HostSession α κ ω) (call : HostCall α κ) :
    s.taken <+: (s.after b budget call).taken := by
  rw [after]
  split
  · exact List.prefix_rfl
  · exact taken_prefix_step s _

/-- Nothing that has been taken is given back. -/
theorem taken_prefix_run (s : HostSession α κ ω) (calls : List (Nat × HostCall α κ)) :
    s.taken <+: (s.run b calls).taken := by
  induction calls generalizing s with
  | nil => exact List.prefix_rfl
  | cons call calls ih => exact (taken_prefix_after b call.1 s call.2).trans (ih _)

/-- After the end of the host, its queue is opened by nobody. -/
theorem Sound.isOpen_after_of_closed (hs : s.Sound) (hclosed : s.host.isClosed = true)
    (call : HostCall α κ) :
    (s.after b budget call).host.shared.outbound.isOpen = s.host.shared.outbound.isOpen := by
  cases hcall : call.outlives with
  | false => simp [HostSession.after, hclosed, hcall]
  | true =>
    rw [HostSession.after, hclosed, hcall]
    cases call with
    | receive =>
      rw [step_of_ok (m := (HostCall.receive : HostCall α κ).act b budget) rfl, Host.receive,
        DeliveryQueue.receive_eq]
      rfl
    | drain => rfl
    | request r =>
      obtain ⟨-, hserved⟩ := Host.serves_request b budget r s.host hs.tame
      obtain ⟨hpending, houtbox⟩ := hs.idle hclosed
      have hline : (final (Host.request b budget r) s.host).shared.line = s.host.shared.line := by
        rcases hserved.outside.1.2 with hline | hline
        · exact hline
        · exact hline.trans (Shared.line_flush_of_idle hpending houtbox)
      rw [HostCall.act, if_neg (by simp), step_quietly]
      exact congrArg (fun line => line.2.2.isOpen) hline
    | _ => cases hcall

theorem Sound.isOpen_run_of_closed (hs : s.Sound) (hclosed : s.host.isClosed = true)
    (calls : List (Nat × HostCall α κ)) :
    (s.run b calls).host.shared.outbound.isOpen = s.host.shared.outbound.isOpen := by
  induction calls generalizing s with
  | nil => rfl
  | cons call calls ih =>
    have h := hs.after_of_closed b call.1 hclosed call.2
    exact (ih h.sound (h.isClosed.trans hclosed)).trans
      (hs.isOpen_after_of_closed b call.1 hclosed call.2)

/-- What the consumer takes after the end of the host, and what it leaves, was there at the
end. -/
theorem Sound.exists_taken_of_closed (hs : s.Sound) (hclosed : s.host.isClosed = true)
    (calls : List (Nat × HostCall α κ)) :
    ∃ took, (s.run b calls).taken = s.taken ++ took ∧
      took ++ (s.run b calls).host.shared.outbound.items = s.host.shared.outbound.items := by
  obtain ⟨took, htook⟩ := taken_prefix_run b s calls
  refine ⟨took, htook.symm, ?_⟩
  -- all that has been sent is what was taken and what is left, and nothing more is sent
  have hsent := (hs.run_of_closed b hclosed calls).sent
  rw [sent, sent, ← htook, List.append_assoc] at hsent
  exact List.append_cancel_left hsent

/-- The end of a host hands the consumer what it has not taken: the items in the queue, then
those of the outbox, then one batch of the updates that are pending, if there are any, by the
next number. It closes the queue once the clock listener has returned, which is told that the
clock stops if it has been running. A second end changes nothing. Whatever is asked of the
scheduler and the registry after that, and whatever the callbacks do, the consumer gets these
items, in order, and then nothing. -/
theorem shutDown_hands_over (root : Tag) (config : HostConfig α) (client : ω)
    (calls : List (Nat × HostCall α κ))
    (hopen : ((start root config client : HostSession α κ ω).run b calls).host.isClosed = false) :
    let s := (start root config client : HostSession α κ ω).run b calls
    let batches := (s.sent ++ s.host.shared.outbox).filterMap (·.batch?)
    let pending := s.host.shared.touches.pending
    let items := s.host.shared.outbound.items ++ (s.host.shared.outbox ++
      if pending.isEmpty then [] else [.touches ⟨batches.length + 1, pending⟩])
    let s' := s.after b budget .shutDown
    s'.taken = s.taken ∧ s'.host.shared.outbound.items = items ∧
    (completes (Host.shutDown b budget) s.host = true →
      s'.host.shared.outbound.isOpen = false) ∧
    ((∀ k, s.host.world.frames.running = true → s.host.world.frames.onClock = some k →
        completes (Control.call (Host.behaviour b s.host.flush) budget k (.clock false))
          { (s.host.setShared s.host.shared.flush).world with
            frames := s.host.world.frames.clear.refresh.2 } = true) →
      completes (Host.shutDown b budget) s.host = true) ∧
    ∀ more, let s'' := s'.run b more
      (∀ budget, Host.shutDown b budget s''.host = .ok () s''.host) ∧
      s''.host.shared.outbound.isOpen = s'.host.shared.outbound.isOpen ∧
      ∃ took, s''.taken = s.taken ++ took ∧
        took ++ s''.host.shared.outbound.items = items ∧
        s''.host.receive.1 = items[took.length]? ∧
        s''.host.drain.1 = items.drop took.length ∧
        s''.host.drain.2.receive.1 = none := by
  intro s batches pending items s'
  have hs : s.Sound := (sound_start root config client).run b calls
  have hs' : s' = s.step (HostCall.quietly (Host.shutDown b budget)) :=
    after_of_open b budget hopen .shutDown
  obtain ⟨hsound, -, hclosed, hsent⟩ := hs.shutDown b budget hopen
  rw [← hs'] at hsound hclosed hsent
  have htaken : s'.taken = s.taken := by rw [hs', step_quietly]
  have hitems : s'.host.shared.outbound.items = items := by
    have hnumbered : batches.length = s.host.shared.touches.batches := by
      have hnumbered := hs.numbered.length_eq
      rwa [Shared.items, ← List.append_assoc] at hnumbered
    rw [sent, sent, htaken, List.append_assoc, Shared.waiting_eq, ← hnumbered] at hsent
    exact List.append_cancel_left hsent
  refine ⟨htaken, hitems, fun hreturns => ?_, Host.completes_shutDown b budget hopen,
    fun more => ?_⟩
  · obtain ⟨u, hrun⟩ := exists_eq_ok_of_completes hreturns
    rw [hs', step_quietly]
    exact Host.ends_shutDown b budget hopen _ _ hrun
  · intro s''
    have hclosed'' : s''.host.isClosed = true :=
      (hsound.run_of_closed b hclosed more).isClosed.trans hclosed
    obtain ⟨took, htook, hrest⟩ := hsound.exists_taken_of_closed b hclosed more
    have hqueue : s''.host.shared.outbound.items = items.drop took.length := by
      rw [← hitems, ← hrest, List.drop_left]
    refine ⟨fun budget => Host.shutDown_of_closed b budget hclosed'',
      hsound.isOpen_run_of_closed b hclosed more, took, htook.trans (by rw [htaken]),
      hrest.trans hitems, ?_, hqueue, rfl⟩
    rw [Host.receive, DeliveryQueue.receive_eq, hqueue, List.head?_drop]

/-- A click, a hover change and another touch that wait for a frame. -/
def beforeFrame : HostSession Rat Empty Unit :=
  (start ⟨1⟩ .default ()).run idle (clickThenHover.take 5)

/-- If the host ends before that frame, all of it is in the queue, which is closed, as there
is no clock listener. -/
theorem shutDown_hands_over_beforeFrame :
    beforeFrame.host.isClosed = false ∧
    let s := beforeFrame.after idle 1 .shutDown
    s.host.shared.outbound.items = beforeFrame.host.shared.outbox ++
      [.touches ⟨2, beforeFrame.host.shared.touches.pending⟩] ∧
    s.host.shared.outbound.isOpen = false ∧
    ∀ more, (s.run idle more).host.drain.2.receive.1 = none := by
  have hopen : beforeFrame.host.isClosed = false := by cbv
  have hreturns : completes (Host.shutDown idle 1) beforeFrame.host = true := by cbv
  have hwaiting : beforeFrame.host.shared.outbound.items ++ (beforeFrame.host.shared.outbox ++
      if beforeFrame.host.shared.touches.pending.isEmpty then [] else [.touches
        ⟨((beforeFrame.sent ++ beforeFrame.host.shared.outbox).filterMap (·.batch?)).length + 1,
          beforeFrame.host.shared.touches.pending⟩]) = beforeFrame.host.shared.outbox ++
      [.touches ⟨2, beforeFrame.host.shared.touches.pending⟩] := by cbv
  obtain ⟨-, hitems, hcloses, -, hmore⟩ :=
    shutDown_hands_over idle 1 ⟨1⟩ .default () (clickThenHover.take 5) hopen
  refine ⟨hopen, hitems.trans hwaiting, hcloses hreturns, fun more => ?_⟩
  obtain ⟨-, -, took, -, -, -, -, hnone⟩ := hmore more
  exact hnone

end HostSession

end ViewHost
