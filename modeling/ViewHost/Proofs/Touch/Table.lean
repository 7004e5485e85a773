import Mathlib.Data.List.Nodup
import ViewHost.Touch.Tracker

/-!
# The table of touches

Every operation on a tracker takes touches off the table, puts touches on it, or
both, and queues an update for each of them. In a keyed table each pointer has
one entry at most, which holds a touch of that pointer.
-/

namespace ViewHost.TouchTracker

variable {α : Type} {t : TouchTracker α} {p q : PointerId} {r : Touch α}
variable {x : PointerId × Touch α} {ps : List PointerId} {reason : CancelReason}
variable {at_ : Timestamp}

/-- Each pointer has one entry at most, and it is a touch of that pointer. -/
structure Keyed (t : TouchTracker α) : Prop where
  nodup : (t.active.map (·.1)).Nodup
  own : ∀ x ∈ t.active, x.2.pointer = x.1

@[simp] theorem active_announce (t : TouchTracker α) (r : Touch α) :
    (t.announce r).active = t.active := rfl

@[simp] theorem pending_announce (t : TouchTracker α) (r : Touch α) :
    (t.announce r).pending = t.pending ++ r.event?.toList := rfl

@[simp] theorem active_release (t : TouchTracker α) (p : PointerId) :
    (t.release p).active = t.active.filter (·.1 ≠ p) := rfl

@[simp] theorem active_hold (t : TouchTracker α) (p : PointerId) (r : Touch α) :
    (t.hold p r).active = (p, r) :: t.active.filter (·.1 ≠ p) := rfl

theorem mem_touches_iff : r ∈ t.touches ↔ ∃ x ∈ t.active, x.2 = r := List.mem_map

namespace Keyed

theorem congr {t' : TouchTracker α} (hk : t.Keyed) (hactive : t'.active = t.active) : t'.Keyed where
  nodup := hactive ▸ hk.nodup
  own := hactive ▸ hk.own

theorem of_filter {t' : TouchTracker α} (hk : t.Keyed) {keep : PointerId × Touch α → Bool}
    (hactive : t'.active = t.active.filter keep) : t'.Keyed where
  nodup := by
    rw [hactive]
    exact hk.nodup.sublist (List.filter_sublist.map _)
  own x hx := hk.own x (List.mem_of_mem_filter (hactive ▸ hx))

theorem release (hk : t.Keyed) (p : PointerId) : (t.release p).Keyed := hk.of_filter rfl

theorem hold (hk : t.Keyed) (hr : r.pointer = p) : (t.hold p r).Keyed where
  nodup := by
    rw [active_hold, List.map_cons, List.nodup_cons]
    exact ⟨by simp, (hk.release p).nodup⟩
  own x hx := by
    rcases List.mem_cons.1 hx with rfl | hx
    · exact hr
    · exact (hk.release p).own x hx

/-- Entries are told apart by their pointers. -/
theorem eq_of_mem (hk : t.Keyed) {y : PointerId × Touch α} (hx : x ∈ t.active) (hy : y ∈ t.active)
    (hxy : x.1 = y.1) : x = y :=
  List.inj_on_of_nodup_map hk.nodup hx hy hxy

theorem touch?_eq_some_iff (hk : t.Keyed) : t.touch? p = some r ↔ (p, r) ∈ t.active := by
  constructor
  · intro hr
    obtain ⟨before, after, hactive, -⟩ := List.lookup_eq_some_iff.1 hr
    rw [hactive]
    exact List.mem_append_right _ List.mem_cons_self
  · intro hr
    cases hlookup : t.touch? p with
    | none => simpa using List.lookup_eq_none_iff.1 hlookup _ hr
    | some r' =>
      obtain ⟨before, after, hactive, -⟩ := List.lookup_eq_some_iff.1 hlookup
      have hr' : (p, r') ∈ t.active := by
        rw [hactive]
        exact List.mem_append_right _ List.mem_cons_self
      exact congrArg (some ·.2) (hk.eq_of_mem hr' hr rfl)

theorem pointer_eq (hk : t.Keyed) (hr : t.touch? p = some r) : r.pointer = p :=
  hk.own _ (hk.touch?_eq_some_iff.1 hr)

theorem touch?_pointer (hk : t.Keyed) (hr : r ∈ t.touches) : t.touch? r.pointer = some r := by
  obtain ⟨x, hx, rfl⟩ := mem_touches_iff.1 hr
  rw [hk.own x hx]
  exact hk.touch?_eq_some_iff.2 hx

theorem mem_touches (hk : t.Keyed) (hr : t.touch? p = some r) : r ∈ t.touches :=
  mem_touches_iff.2 ⟨_, hk.touch?_eq_some_iff.1 hr, rfl⟩

end Keyed

theorem touch?_eq_none_iff : t.touch? p = none ↔ ∀ x ∈ t.active, x.1 ≠ p := by
  rw [touch?, List.lookup_eq_none_iff]
  refine forall₂_congr fun x _ => ?_
  rw [bne_iff_ne, ne_comm]

theorem active_release_of_none (hp : t.touch? p = none) : (t.release p).active = t.active := by
  rw [active_release, List.filter_eq_self]
  intro x hx
  exact decide_eq_true (touch?_eq_none_iff.1 hp x hx)

theorem active_hold_of_none (hp : t.touch? p = none) (r : Touch α) :
    (t.hold p r).active = (p, r) :: t.active := by
  rw [active_hold, ← active_release, active_release_of_none hp]

/-- A pointer taken off the table has no touch, and the others keep theirs. -/
theorem touch?_of_filter {t' : TouchTracker α} (hactive : t'.active = t.active.filter (·.1 ≠ p)) :
    t'.touch? q = if q = p then none else t.touch? q := by
  rw [touch?, touch?, hactive]
  induction t.active with
  | nil => simp
  | cons x xs ih =>
    by_cases hx : x.1 = p
    · rw [List.filter_cons_of_neg (by simpa using hx), ih, List.lookup_cons]
      by_cases hq : q = p
      · rw [if_pos hq, if_pos hq]
      · rw [if_neg hq, if_neg hq, beq_eq_false_iff_ne.2 (hx ▸ hq)]
    · rw [List.filter_cons_of_pos (by simpa using hx), List.lookup_cons, List.lookup_cons, ih]
      by_cases hq : q = x.1
      · simp only [if_neg (hq ▸ hx), beq_iff_eq.2 hq]
      · simp only [beq_eq_false_iff_ne.2 hq]

theorem touch?_release (t : TouchTracker α) (p q : PointerId) :
    (t.release p).touch? q = if q = p then none else t.touch? q :=
  touch?_of_filter rfl

theorem touch?_hold (t : TouchTracker α) (p q : PointerId) (r : Touch α) :
    (t.hold p r).touch? q = if q = p then some r else t.touch? q := by
  have hrelease := t.touch?_release p q
  rw [touch?, active_hold, List.lookup_cons]
  by_cases hq : q = p
  · rw [beq_iff_eq.2 hq, if_pos hq]
  · rw [if_neg hq] at hrelease
    rw [beq_eq_false_iff_ne.2 hq, if_neg hq]
    exact hrelease

/-! ## Cancelling -/

/-- Cancelling changes the table and what pends, nothing else. -/
theorem cancelEach_snd (t : TouchTracker α) (at_ : Timestamp) (ps : List PointerId) :
    (t.cancelEach at_ ps).2 =
      { t with
        active := (t.cancelEach at_ ps).2.active
        pending := (t.cancelEach at_ ps).2.pending } := by
  induction ps generalizing t with
  | nil => rfl
  | cons p ps ih =>
    rw [cancelEach]
    cases t.touch? p with
    | none => exact ih t
    | some r => exact ih _

@[simp] theorem nextId_cancelEach (t : TouchTracker α) (at_ : Timestamp) (ps : List PointerId) :
    (t.cancelEach at_ ps).2.nextId = t.nextId := by
  rw [cancelEach_snd]

@[simp] theorem root_cancelEach (t : TouchTracker α) (at_ : Timestamp) (ps : List PointerId) :
    (t.cancelEach at_ ps).2.root = t.root := by
  rw [cancelEach_snd]

@[simp] theorem epsilon_cancelEach (t : TouchTracker α) (at_ : Timestamp) (ps : List PointerId) :
    (t.cancelEach at_ ps).2.epsilon = t.epsilon := by
  rw [cancelEach_snd]

/-- Cancelling takes the pointers off the table, one after the other. -/
theorem active_cancelEach (t : TouchTracker α) (at_ : Timestamp) (ps : List PointerId) :
    (t.cancelEach at_ ps).2.active = t.active.filter (·.1 ∉ ps) := by
  induction ps generalizing t with
  | nil => simp [cancelEach]
  | cons p ps ih =>
    rw [cancelEach]
    cases hr : t.touch? p with
    | none =>
      rw [ih]
      refine List.filter_congr fun x hx => ?_
      simp [touch?_eq_none_iff.1 hr x hx]
    | some r =>
      simp only [ih, active_announce, active_release, List.filter_filter]
      refine List.filter_congr fun x _ => ?_
      simp [Bool.and_comm]

theorem mem_selected_iff : p ∈ t.selected reason ↔
    ∃ r ∈ t.touches, r.selectedBy reason ∧ r.pointer = p := by
  rw [selected, (List.mergeSort_perm _ _).mem_iff]
  simp [and_assoc]

/-- Cancelling leaves just the touches that the reason does not select. -/
theorem active_cancel (hk : t.Keyed) (reason : CancelReason) (at_ : Timestamp) :
    (t.cancel reason at_).2.active = t.active.filter fun x => !x.2.selectedBy reason := by
  rw [cancel, active_cancelEach]
  refine List.filter_congr fun x hx => ?_
  have hselected : x.1 ∈ t.selected reason ↔ x.2.selectedBy reason := by
    rw [mem_selected_iff]
    constructor
    · rintro ⟨r, hr, hreason, hp⟩
      obtain ⟨y, hy, rfl⟩ := mem_touches_iff.1 hr
      rw [hk.own y hy] at hp
      rwa [← hk.eq_of_mem hy hx hp]
    · intro hreason
      exact ⟨x.2, mem_touches_iff.2 ⟨x, hx, rfl⟩, hreason, hk.own x hx⟩
  simp [hselected]

theorem Keyed.touch?_cancel_eq_some_iff (hk : t.Keyed) (reason : CancelReason)
    (at_ : Timestamp) : (t.cancel reason at_).2.touch? p = some r ↔
      t.touch? p = some r ∧ r.selectedBy reason = false := by
  have hactive := active_cancel hk reason at_
  rw [(hk.of_filter hactive).touch?_eq_some_iff, hk.touch?_eq_some_iff, hactive, List.mem_filter,
    Bool.not_eq_true']

/-- Among entries with different pointers a look-up finds all there is. -/
theorem filter_eq_toList_lookup {entries : List (PointerId × Touch α)}
    (hnodup : (entries.map (·.1)).Nodup) (p : PointerId) :
    (entries.filter (·.1 = p)).map (·.2) = (entries.lookup p).toList := by
  induction entries with
  | nil => rfl
  | cons x entries ih =>
    rw [List.map_cons, List.nodup_cons] at hnodup
    obtain ⟨hx, hnodup⟩ := hnodup
    rw [List.lookup_cons]
    by_cases hp : x.1 = p
    · have hrest : entries.filter (·.1 = p) = [] := by
        rw [List.filter_eq_nil_iff]
        intro y hy hyp
        exact hx (List.mem_map.2 ⟨y, hy, (of_decide_eq_true hyp).trans hp.symm⟩)
      rw [List.filter_cons_of_pos (by simpa using hp), hrest, beq_iff_eq.2 hp.symm]
      rfl
    · rw [List.filter_cons_of_neg (by simpa using hp), ih hnodup,
        beq_eq_false_iff_ne.2 (Ne.symm hp)]

/-- A pointer selects no touch but its own. -/
theorem selected_contact (hk : t.Keyed) :
    t.selected (.contact p) = ((t.touch? p).map (·.pointer)).toList := by
  have hfilter : t.touches.filter (·.selectedBy (.contact p)) = (t.touch? p).toList := by
    rw [touch?, ← filter_eq_toList_lookup hk.nodup, touches, List.filter_map]
    refine congrArg _ (List.filter_congr fun x hx => ?_)
    rw [Function.comp_apply, Touch.selectedBy, hk.own x hx]
  cases hr : t.touch? p <;> simp [selected, hfilter, hr]

theorem cancel_contact_of_none (hk : t.Keyed) (hr : t.touch? p = none) (at_ : Timestamp) :
    t.cancel (.contact p) at_ = ([], t) := by
  rw [cancel, selected_contact hk, hr]
  rfl

theorem cancel_contact_of_some (hk : t.Keyed) (hr : t.touch? p = some r) (at_ : Timestamp) :
    t.cancel (.contact p) at_ =
      ([r.id], (t.release p).announce { r with phase := .cancelled, timestamp := at_ }) := by
  have hp : r.pointer = p := hk.pointer_eq hr
  have hselected : t.selected (.contact p) = [p] := by
    rw [selected_contact hk, hr, Option.map_some, hp, Option.toList_some]
  rw [cancel, hselected]
  simp only [cancelEach, hr]

/-- The tracker once the touch that a pointer still has is cancelled. -/
def cleared (t : TouchTracker α) (p : PointerId) (at_ : Timestamp) : TouchTracker α :=
  if (t.touch? p).isSome then (t.cancel (.contact p) at_).2 else t

theorem active_cleared (hk : t.Keyed) (p : PointerId) (at_ : Timestamp) :
    (t.cleared p at_).active = t.active.filter (·.1 ≠ p) := by
  rw [cleared]
  split
  · rw [active_cancel hk]
    refine List.filter_congr fun x hx => ?_
    simp [Touch.selectedBy, hk.own x hx]
  · next hp =>
    rw [Option.not_isSome_iff_eq_none] at hp
    exact (active_release_of_none hp).symm

theorem touch?_cleared (hk : t.Keyed) (p : PointerId) (at_ : Timestamp) :
    (t.cleared p at_).touch? p = none := by
  rw [touch?_eq_none_iff, active_cleared hk]
  intro x hx
  exact of_decide_eq_true (List.mem_filter.1 hx).2

@[simp] theorem nextId_cleared (t : TouchTracker α) (p : PointerId) (at_ : Timestamp) :
    (t.cleared p at_).nextId = t.nextId := by
  rw [cleared]
  split
  · exact nextId_cancelEach t at_ _
  · rfl

@[simp] theorem root_cleared (t : TouchTracker α) (p : PointerId) (at_ : Timestamp) :
    (t.cleared p at_).root = t.root := by
  rw [cleared]
  split
  · exact root_cancelEach t at_ _
  · rfl

@[simp] theorem epsilon_cleared (t : TouchTracker α) (p : PointerId) (at_ : Timestamp) :
    (t.cleared p at_).epsilon = t.epsilon := by
  rw [cleared]
  split
  · exact epsilon_cancelEach t at_ _
  · rfl

/-! ## Identifiers -/

theorem freeId_of_not_mem {taken : List TouchId} {id : UInt64} (h0 : id ≠ 0)
    (hid : ⟨id⟩ ∉ taken) (tries : Nat) : freeId taken tries id = id := by
  cases tries with
  | zero => rw [freeId, if_neg h0]
  | succ tries => simp [freeId, h0, hid]

end ViewHost.TouchTracker
