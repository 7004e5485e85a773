import Mathlib
import ViewHost.Proofs.Host.Awake

/-!
# The next pulse

While something is pending the clock runs, and so the next pulse that does not come too
soon is accepted. The host's own observer has the first turn then. When its turn is over
all that waited is in the queue, and there it stays, whether the others return or not.
-/

namespace ViewHost

open Run

variable {α κ ω : Type}

namespace Host

variable {h h' : Host α κ ω}

variable (b : Behaviour κ ω) (budget : Nat)

end Host

namespace HostCall

/-- Calls that have all frame observers forgotten. -/
def forgets : HostCall α κ → Bool
  | request .clearFrames | shutDown => true
  | _ => false

theorem ends_quietly {β : Type} {m : Host.Act α κ ω β} {h : Host α κ ω} {Q : Host α κ ω → Prop}
    (hm : Ends m h fun _ h' => Q h') : Ends (quietly m) h fun _ h' => Q h' :=
  Ends.bind (hm.mono fun _ _ hQ => ends_pure hQ)

variable [Scalar α] {h : Host α κ ω} {b : Behaviour κ ω}

/-- Calls keep the host's own observer awake where it has to be. -/
theorem ends_act (hb : b.KeepsFrames) (budget : Nat) {call : HostCall α κ}
    (hcall : call.forgets = false) (hh : h.Alert) :
    Ends (call.act b budget) h fun _ h' => h'.Alert := by
  cases call with
  | apply c =>
    refine ends_quietly (ends_modify ?_)
    cases hc : h.apply c with
    | error e => exact hh
    | ok h' => exact hh.apply hc
  | applyAll cs => exact ends_quietly (ends_modify (hh.applyAll cs))
  | pointer e => exact ends_quietly (Host.ends_handlePointer budget hb e hh.toManned)
  | input e =>
    refine ends_quietly ?_
    cases e with
    | pointer e =>
      exact Ends.bind ((Host.ends_handlePointer budget hb e hh.toManned).mono fun _ _ hh' =>
        ends_pure hh')
    | key e =>
      exact Ends.bind ((Host.ends_handleKey budget hb e hh.toManned).mono fun _ _ hu =>
        ends_pure (hu.alert hh))
  | setRoot root at_ => exact ends_quietly (Host.ends_setRoot budget hb root at_ hh)
  | request r =>
    have hr : r ≠ .clearFrames := by
      rintro rfl
      cases hcall
    exact ends_quietly ((Host.ends_request budget hb hr hh.toManned).mono fun _ _ hu =>
      hu.alert hh)
  | tick now => exact ends_quietly ((Host.ends_tick budget hb now hh).mono fun _ _ hh' => hh'.1)
  | pump now =>
    refine Ends.bind ((Host.ends_tick budget hb now hh).mono ?_)
    rintro _ h' ⟨hh', -⟩
    exact ends_modifyGet (hh'.congr rfl rfl rfl rfl rfl)
  | receive => exact ends_modifyGet (hh.congr rfl rfl rfl rfl rfl)
  | drain => exact ends_modifyGet (hh.congr rfl rfl rfl rfl rfl)
  | shutDown => cases hcall

end HostCall

namespace HostSession

variable [Scalar α] {b : Behaviour κ ω} {s : HostSession α κ ω}

/-- Sessions in which every call has returned, and in which the frame observers have
never been forgotten all at once. -/
inductive Returned (b : Behaviour κ ω) : HostSession α κ ω → Prop where
  | start (root : Tag) (config : HostConfig α) (client : ω) :
      Returned b (HostSession.start root config client)
  | call {s : HostSession α κ ω} (hs : Returned b s) (budget : Nat) (call : HostCall α κ)
      (hcall : call.forgets = false) (hreturns : completes (call.act b budget) s.host = true) :
      Returned b (s.after b budget call)

/-- Whether some calls return, one after the other, and leave the frame observers there. -/
def returns (b : Behaviour κ ω) (s : HostSession α κ ω) : List (Nat × HostCall α κ) → Bool
  | [] => true
  | (budget, call) :: calls =>
    !call.forgets && completes (call.act b budget) s.host && returns b (s.after b budget call) calls

theorem Returned.run {calls : List (Nat × HostCall α κ)} (hs : s.Returned b)
    (hcalls : returns b s calls = true) : (s.run b calls).Returned b := by
  induction calls generalizing s with
  | nil => exact hs
  | cons call calls ih =>
    rw [returns, Bool.and_eq_true, Bool.and_eq_true, Bool.not_eq_true'] at hcalls
    exact ih (hs.call call.1 call.2 hcalls.1.1 hcalls.1.2) hcalls.2

theorem Returned.sound (hs : s.Returned b) : s.Sound ∧ s.host.isClosed = false := by
  induction hs with
  | start root config client => exact ⟨sound_start root config client, rfl⟩
  | call _ budget call hcall _ ih =>
    obtain ⟨hsound, hopen⟩ := ih
    have hshutDown : call.isShutDown = false := by
      cases call <;> first | rfl | cases hcall
    rw [after_of_open b budget hopen]
    have hadvances := hsound.advances b budget hopen hshutDown
    exact ⟨hadvances.sound, hadvances.isClosed.trans hopen⟩

theorem Returned.alert (hb : b.KeepsFrames) (hs : s.Returned b) : s.host.Alert := by
  induction hs with
  | start root config client => exact Host.alert_new root config client
  | @call s hs budget call hcall hreturns ih =>
    obtain ⟨items, hrun⟩ := exists_eq_ok_of_completes hreturns
    rw [after_of_open b budget hs.sound.2, step_of_ok hrun]
    exact HostCall.ends_act hb budget hcall ih _ _ hrun

/-- A finger has come down on the only view. -/
def pressed : HostSession Rat Empty Unit :=
  (start ⟨1⟩ .default ()).run idle (clickThenHover.take 2)

end HostSession

end ViewHost
