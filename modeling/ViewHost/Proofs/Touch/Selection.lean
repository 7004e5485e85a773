import Mathlib
import ViewHost.Proofs.Touch.Distinct
import ViewHost.Proofs.Touch.Location

/-!
# Which touches a cancellation takes

A reason to cancel selects touches by what the calls have said of them: all of them, the one of a
pointer, or those that began under a root, whatever the root is by then. The touches are kept in no
particular order. Since no two of them have the same identifier, there is only one way to go
through them by identifier, so it does not matter to a cancellation in which order they are kept.
-/

namespace ViewHost

variable {α : Type}

/-- Whether a reason selects the last contact of a pointer. -/
def Lookout.Selects (w : Lookout α) (p : PointerId) : CancelReason → Prop
  | .focusLost | .system => True
  | .contact q => p = q
  | .root tag => ∃ c, w.contacts p = some c ∧ c.root = tag

theorem Lookout.Watches.selectedBy_iff [Scalar α] {w : Lookout α} {t : TouchTracker α}
    (h : w.Watches t) {p : PointerId} {r : Touch α} (hr : t.touch? p = some r)
    (reason : CancelReason) : r.selectedBy reason = true ↔ w.Selects p reason := by
  obtain ⟨c, hc, hfollows⟩ := h.follows p r hr
  cases reason with
  | focusLost | system => exact ⟨fun _ => trivial, fun _ => rfl⟩
  | contact q => rw [Touch.selectedBy, decide_eq_true_eq, h.keyed.pointer_eq hr, Lookout.Selects]
  | root tag =>
    rw [Touch.selectedBy, decide_eq_true_eq, hfollows.root, Lookout.Selects]
    constructor
    · exact fun htag => ⟨c, hc, htag⟩
    · rintro ⟨d, hd, htag⟩
      rwa [Option.some.inj (hc.symm.trans hd)]

namespace TouchTracker

variable {t u : TouchTracker α} {p : PointerId} {r : Touch α}

/-! ## The order in which touches are kept -/

namespace Distinct

variable (h : t.Distinct) (hperm : u.active.Perm t.active)

include h

/-- Touches ascend by identifier. -/
theorem ascending : (t.activeTouches.map (·.id.val)).Pairwise (· < ·) := by
  have hle := t.stablySorted_activeTouches.ascending
  have hne : (t.activeTouches.map (·.id)).Nodup :=
    (t.stablySorted_activeTouches.perm.map _).nodup_iff.2 h.ids
  rw [List.pairwise_map]
  refine (hle.and (List.pairwise_map.1 hne)).imp fun {a b} hab => ?_
  have hval : a.id.val ≠ b.id.val := fun heq => hab.2 (congrArg TouchId.mk heq)
  have htoNat : a.id.val.toNat ≠ b.id.val.toNat := fun heq => hval (UInt64.toNat_inj.1 heq)
  have hnumber : (a.id.val.toNat : Int) ≤ b.id.val.toNat := hab.1
  rw [UInt64.lt_iff_toNat_lt]
  omega

include hperm

theorem perm : u.Distinct where
  keyed.nodup := (hperm.map _).nodup_iff.2 h.keyed.nodup
  keyed.own x hx := h.keyed.own x (hperm.mem_iff.1 hx)
  ids := ((hperm.map _).map _).nodup_iff.2 h.ids
  nonzero hmem := h.nonzero (((hperm.map _).map _).mem_iff.1 hmem)

theorem activeTouches_perm : u.activeTouches = t.activeTouches := by
  have htouches : u.activeTouches.Perm t.activeTouches :=
    u.stablySorted_activeTouches.perm.trans
      ((hperm.map _).trans t.stablySorted_activeTouches.perm.symm)
  -- both lists ascend strictly, which leaves no choice of the order
  have hu := List.pairwise_map.1 (h.perm hperm).ascending
  have ht := List.pairwise_map.1 h.ascending
  refine htouches.eq_of_pairwise (fun a b _ _ hab hba => ?_) hu ht
  exact absurd (UInt64.lt_trans hab hba) (UInt64.lt_irrefl _)

theorem touch?_perm (p : PointerId) : u.touch? p = t.touch? p := by
  ext r
  rw [(h.perm hperm).keyed.touch?_eq_some_iff, h.keyed.touch?_eq_some_iff, hperm.mem_iff]

/-- A cancellation does the same in whatever order the touches are kept. -/
theorem cancel_perm (reason : CancelReason) (at_ : Timestamp) (hpending : u.pending = t.pending) :
    (u.cancel reason at_).1 = (t.cancel reason at_).1 ∧
      (u.cancel reason at_).2.pending = (t.cancel reason at_).2.pending ∧
      (u.cancel reason at_).2.activeTouches = (t.cancel reason at_).2.activeTouches ∧
      ∀ p, (u.cancel reason at_).2.touch? p = (t.cancel reason at_).2.touch? p := by
  have hu := (h.perm hperm).keyed
  have hchosen : u.chosen reason = t.chosen reason := by
    rw [chosen, chosen, h.activeTouches_perm hperm]
  obtain ⟨hids, htold⟩ := h.keyed.cancel_eq reason at_
  obtain ⟨hids', htold'⟩ := hu.cancel_eq reason at_
  have hleft := active_cancel h.keyed reason at_
  have hafter : (u.cancel reason at_).2.active.Perm (t.cancel reason at_).2.active := by
    rw [hleft, active_cancel hu]
    exact hperm.filter _
  have hdistinct := h.of_filter hleft
  refine ⟨?_, ?_, hdistinct.activeTouches_perm hafter, hdistinct.touch?_perm hafter⟩
  · rw [hids, hids', hchosen]
  · rw [htold, htold', hchosen, hpending]

end Distinct

end TouchTracker

/-! ## Runs -/

namespace TouchSession

variable [Scalar α]

/-- After a run that found an identifier for each down, a cancellation takes just the touches that
the reason selects off the table, and names them by ascending identifier. Those of them that have
a target are announced in this order after all that pends already, and nothing else is changed. In
whatever order the touches are kept, every touch that is selected is found under its pointer, and
the result is the same, as is the list of the touches by identifier. -/
theorem cancel_takes_selected (root : Tag) (epsilon : α) (calls : List (TouchCall α))
    (hroom : (start root epsilon).NeverFull calls) (reason : CancelReason) (at_ : Timestamp) :
    let t := ((start root epsilon).run calls).tracker
    let w := Lookout.of root calls
    let gone := t.activeTouches.filter (·.selectedBy reason)
    let t' := (t.cancel reason at_).2
    ((∀ r, r ∈ t.activeTouches ↔ t.touch? r.pointer = some r) ∧
      (t.activeTouches.map (·.id.val)).Pairwise (· < ·)) ∧
    (∀ r, r ∈ gone ↔ t.touch? r.pointer = some r ∧ w.Selects r.pointer reason) ∧
    ((t.cancel reason at_).1 = gone.map (·.id) ∧
      ((t.cancel reason at_).1.map (·.val)).Pairwise (· < ·)) ∧
    (∀ p r, t'.touch? p = some r ↔ t.touch? p = some r ∧ ¬ w.Selects p reason) ∧
    t'.pending = t.pending ++ gone.filterMap (fun r => (r.cancelled at_).event?) ∧
    t' = { t with active := t'.active, pending := t'.pending } ∧
    ∀ entries, entries.Perm t.active →
      let u := { t with active := entries }
      (∀ r ∈ u.touches, r.selectedBy reason → u.touch? r.pointer = some r) ∧
      u.activeTouches = t.activeTouches ∧
      (u.cancel reason at_).1 = (t.cancel reason at_).1 ∧
      (u.cancel reason at_).2.pending = t'.pending ∧
      (u.cancel reason at_).2.activeTouches = t'.activeTouches ∧
      ∀ p, (u.cancel reason at_).2.touch? p = t'.touch? p := by
  intro t w gone t'
  have h : t.Distinct := distinct_run (distinct_start root epsilon) hroom
  have hw : w.Watches t := Lookout.watches_run root epsilon calls
  obtain ⟨hids, hpending⟩ := h.keyed.cancel_eq reason at_
  have hactive : ∀ r, r ∈ t.activeTouches ↔ t.touch? r.pointer = some r := fun r =>
    t.stablySorted_activeTouches.mem_iff.trans ⟨h.keyed.touch?_pointer, h.keyed.mem_touches⟩
  refine ⟨⟨hactive, h.ascending⟩, fun r => ?_, ⟨hids, ?_⟩, fun p r => ?_, hpending,
    t.cancelEach_snd at_ _, fun entries hperm => ?_⟩
  · rw [List.mem_filter, hactive]
    exact and_congr_right fun hr => hw.selectedBy_iff hr reason
  · rw [hids, List.map_map]
    exact h.ascending.sublist (List.filter_sublist.map _)
  · rw [h.keyed.touch?_cancel_eq_some_iff]
    refine and_congr_right fun hr => ?_
    rw [← hw.selectedBy_iff hr, Bool.not_eq_true]
  · intro u
    have hu : u.active.Perm t.active := hperm
    exact ⟨fun r hr _ => (h.perm hu).keyed.touch?_pointer hr, h.activeTouches_perm hu,
      h.cancel_perm hu reason at_ rfl⟩

/-- Two fingers go down under one root, one of them beside its views, and a third one under
another root. -/
def threeDown : List (TouchCall Rat) :=
  [.down home ⟨7⟩ .touch ⟨30, 30⟩ .zero, .down home ⟨3⟩ .touch ⟨200, 5⟩ .zero, .setRoot ⟨2⟩,
    .down home ⟨5⟩ .touch ⟨5, 5⟩ .zero]

/-- The touches of the root that was left are cancelled, and one of them has a target to tell. -/
theorem threeDown_cancel :
    let t := ((start ⟨1⟩ 0).run threeDown).tracker
    (start ⟨1⟩ (0 : Rat)).NeverFull threeDown ∧
    (t.cancel (.root ⟨1⟩) .second).1 = [⟨1⟩, ⟨2⟩] ∧
    (t.cancel (.root ⟨1⟩) .second).2.pending.map (fun e => (e.identifier.val, e.phase)) =
      [(1, .began), (3, .began), (1, .cancelled)] ∧
    (t.cancel (.root ⟨1⟩) .second).2.activeTouches.map (·.pointer) = [⟨5⟩] ∧
    ∀ entries, entries.Perm t.active →
      ({ t with active := entries }.cancel (.root ⟨1⟩) .second).1 = [⟨1⟩, ⟨2⟩] := by
  intro t
  have hroom : (start ⟨1⟩ (0 : Rat)).NeverFull threeDown := by
    refine ⟨⟨⟨9⟩, by decide, ?_⟩, ⟨⟨9⟩, by decide, ?_⟩, trivial, ⟨⟨9⟩, by decide, ?_⟩, trivial⟩
    · cbv
      exact List.not_mem_nil
    · cbv
      exact (by decide : (⟨9⟩ : TouchId) ∉ [⟨1⟩])
    · cbv
      exact (by decide : (⟨9⟩ : TouchId) ∉ [⟨2⟩, ⟨1⟩])
  have hids : (t.cancel (.root ⟨1⟩) .second).1 = [⟨1⟩, ⟨2⟩] := by cbv
  obtain ⟨-, -, -, -, -, -, horder⟩ :=
    cancel_takes_selected ⟨1⟩ 0 threeDown hroom (.root ⟨1⟩) .second
  refine ⟨hroom, hids, by cbv, by cbv, fun entries hperm => ?_⟩
  rw [(horder entries hperm).2.2.1, hids]

end TouchSession

end ViewHost
