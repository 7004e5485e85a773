import Mathlib
import ViewHost.Proofs.StableSort
import ViewHost.Proofs.Touch.Reply

/-!
# Cancelling by identifier

To cancel the touches that a reason selects, their pointers are sorted by identifiers that are
looked up in the table once more, and then taken off the table one after the other. In a keyed
table each look-up finds the touch it is meant to find. So it comes to the same as to go through
the touches by identifier and to cancel those that are selected.
-/

namespace ViewHost

variable {α : Type}

/-- The identifier as a sort key. -/
def Touch.number (r : Touch α) : Int := r.id.val.toNat

namespace TouchTracker

variable {t : TouchTracker α} {p q : PointerId} {r : Touch α} {reason : CancelReason}
variable {at_ : Timestamp}

/-- The touches that a reason selects, by identifier. -/
def chosen (t : TouchTracker α) (reason : CancelReason) : List (Touch α) :=
  t.activeTouches.filter (·.selectedBy reason)

/-! ## The table by identifier -/

theorem stablySorted_mergeSort_id (rs : List (Touch α)) :
    StablySorted Touch.number rs (rs.mergeSort fun a b => a.id.val ≤ b.id.val) := by
  have hle : (fun a b : Touch α => decide (a.id.val ≤ b.id.val)) =
      fun a b => decide (a.number ≤ b.number) := by
    funext a b
    simp only [Touch.number, UInt64.le_iff_toNat_le, Int.ofNat_le]
  rw [hle]
  exact .mergeSort Touch.number rs

theorem stablySorted_activeTouches (t : TouchTracker α) :
    StablySorted Touch.number t.touches t.activeTouches :=
  stablySorted_mergeSort_id t.touches

/-- Touches may be selected before they are sorted or after. -/
theorem mergeSort_selected (t : TouchTracker α) (reason : CancelReason) :
    (t.touches.filter (·.selectedBy reason)).mergeSort (fun a b => a.id.val ≤ b.id.val) =
      t.chosen reason :=
  (stablySorted_mergeSort_id _).unique (t.stablySorted_activeTouches.filter _)

theorem mem_chosen_iff : r ∈ t.chosen reason ↔ r ∈ t.touches ∧ r.selectedBy reason := by
  rw [chosen, List.mem_filter, t.stablySorted_activeTouches.mem_iff]

namespace Keyed

theorem nodup_pointers (hk : t.Keyed) : (t.touches.map (·.pointer)).Nodup := by
  rw [touches, List.map_map, List.map_congr_left (g := (·.1)) hk.own]
  exact hk.nodup

/-- The second look-up finds the touch that was selected. -/
theorem idOf_pointer (hk : t.Keyed) (hr : r ∈ t.touches) : t.idOf r.pointer = r.id.val := by
  rw [idOf, hk.touch?_pointer hr]

theorem selected_eq (hk : t.Keyed) (reason : CancelReason) :
    t.selected reason = (t.chosen reason).map (·.pointer) := by
  rw [← mergeSort_selected, List.map_mergeSort (s := fun p q => t.idOf p ≤ t.idOf q)]
  · rfl
  · intro a ha b hb
    rw [hk.idOf_pointer (List.mem_of_mem_filter ha), hk.idOf_pointer (List.mem_of_mem_filter hb)]

end Keyed

/-! ## One after the other -/

/-- Of touches on the table, none of them twice, each is cancelled as it is. -/
theorem cancelEach_eq {rs : List (Touch α)} (hheld : ∀ r ∈ rs, t.touch? r.pointer = some r)
    (hnodup : (rs.map (·.pointer)).Nodup) (at_ : Timestamp) :
    (t.cancelEach at_ (rs.map (·.pointer))).1 = rs.map (·.id) ∧
      (t.cancelEach at_ (rs.map (·.pointer))).2.pending =
        t.pending ++ rs.filterMap fun r => (r.cancelled at_).event? := by
  induction rs generalizing t with
  | nil => exact ⟨rfl, (List.append_nil _).symm⟩
  | cons r rs ih =>
    rw [List.map_cons, List.nodup_cons] at hnodup
    obtain ⟨hfirst, hrest⟩ := List.forall_mem_cons.1 hheld
    -- the others are on the table still once the first one is off it
    have hleft : ∀ r' ∈ rs,
        ((t.release r.pointer).announce (r.cancelled at_)).touch? r'.pointer = some r' := by
      intro r' hr'
      have hne : r'.pointer ≠ r.pointer := fun heq =>
        hnodup.1 (List.mem_map.2 ⟨r', hr', heq⟩)
      refine (t.touch?_release r.pointer r'.pointer).trans ?_
      rw [if_neg hne]
      exact hrest r' hr'
    obtain ⟨hids, hpending⟩ := ih hleft hnodup.2
    rw [List.map_cons, cancelEach, hfirst]
    refine ⟨congrArg (r.id :: ·) hids, hpending.trans ?_⟩
    have hsplit : (r :: rs).filterMap (fun r => (r.cancelled at_).event?) =
        (r.cancelled at_).event?.toList ++ rs.filterMap fun r => (r.cancelled at_).event? := by
      rw [List.filterMap_cons]
      cases (r.cancelled at_).event? <;> rfl
    rw [hsplit, pending_announce, List.append_assoc]
    rfl

theorem Keyed.cancel_eq (hk : t.Keyed) (reason : CancelReason) (at_ : Timestamp) :
    (t.cancel reason at_).1 = (t.chosen reason).map (·.id) ∧
      (t.cancel reason at_).2.pending =
        t.pending ++ (t.chosen reason).filterMap fun r => (r.cancelled at_).event? := by
  have hheld : ∀ r ∈ t.chosen reason, t.touch? r.pointer = some r := fun r hr =>
    hk.touch?_pointer (mem_chosen_iff.1 hr).1
  have hnodup : ((t.chosen reason).map (·.pointer)).Nodup := by
    have hall : (t.activeTouches.map (·.pointer)).Nodup :=
      (t.stablySorted_activeTouches.perm.map _).nodup_iff.2 hk.nodup_pointers
    exact hall.sublist (List.filter_sublist.map _)
  rw [cancel, hk.selected_eq]
  exact cancelEach_eq hheld hnodup at_

end TouchTracker

end ViewHost
