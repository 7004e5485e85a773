import ViewHost.Proofs.Touch.Table

/-!
# Pending updates do not matter

What a tracker does with a call depends on its table, its root and the identifiers
left. Updates that pend already stay in front of the new ones and have no influence
on them, nor does the number of batches handed out.
-/

namespace ViewHost.TouchTracker

variable {α : Type} (t : TouchTracker α) (es : List (TouchEvent α)) (n : Nat)

/-- The tracker with more updates pending in front and another number of batches. -/
def behind : TouchTracker α := { t with pending := es ++ t.pending, batches := n }

/-- The tracker with nothing pending, as if it had handed out no batch. -/
def quiet : TouchTracker α := { t with pending := [], batches := 0 }

theorem behind_quiet : t.quiet.behind t.pending t.batches = t := by
  rw [quiet, behind, List.append_nil]

/-- An operation that takes no notice of what is pending. -/
def Oblivious (step : TouchTracker α → TouchTracker α) : Prop :=
  ∀ t es n, step (t.behind es n) = (step t).behind es n

namespace Oblivious

variable {step : TouchTracker α → TouchTracker α} (h : Oblivious step) (t : TouchTracker α)

include h

theorem eq_behind : step t = (step t.quiet).behind t.pending t.batches := by
  rw [← h, behind_quiet]

theorem pending_eq : (step t).pending = t.pending ++ (step t.quiet).pending := by
  rw [h.eq_behind]
  rfl

theorem batches_eq : (step t).batches = t.batches := by
  rw [h.eq_behind]
  rfl

theorem quiet_eq : (step t).quiet = (step t.quiet).quiet := by
  rw [h.eq_behind]
  rfl

end Oblivious

theorem announce_behind (r : Touch α) :
    (t.behind es n).announce r = (t.announce r).behind es n := by
  simp only [announce, behind, List.append_assoc]

theorem cancelEach_behind (at_ : Timestamp) (ps : List PointerId) :
    (t.behind es n).cancelEach at_ ps =
      ((t.cancelEach at_ ps).1, (t.cancelEach at_ ps).2.behind es n) := by
  induction ps generalizing t with
  | nil => rfl
  | cons p ps ih =>
    rw [cancelEach, cancelEach]
    have hr : (t.behind es n).touch? p = t.touch? p := rfl
    rw [hr]
    cases t.touch? p with
    | none => exact ih t
    | some r =>
      have hrelease : (t.behind es n).release p = (t.release p).behind es n := rfl
      simp only [hrelease, announce_behind, ih]

theorem cancel_behind (reason : CancelReason) (at_ : Timestamp) :
    (t.behind es n).cancel reason at_ =
      ((t.cancel reason at_).1, (t.cancel reason at_).2.behind es n) :=
  cancelEach_behind t es n at_ _

theorem cleared_behind (p : PointerId) (at_ : Timestamp) :
    (t.behind es n).cleared p at_ = (t.cleared p at_).behind es n := by
  have hr : (t.behind es n).touch? p = t.touch? p := rfl
  rw [cleared, cleared, hr]
  split
  · rw [cancel_behind]
  · rfl

theorem oblivious_cancel (reason : CancelReason) (at_ : Timestamp) :
    Oblivious fun t : TouchTracker α => (t.cancel reason at_).2 := fun t es n =>
  congrArg (·.2) (cancel_behind t es n reason at_)

theorem oblivious_setRoot (root : Tag) :
    Oblivious fun t : TouchTracker α => t.setRoot root := fun _ _ _ => rfl

variable [Scalar α] (tree : Tree α) (p : PointerId) (kind : PointerKind) (point : Vec2 α)
variable (at_ : Timestamp)

theorem down_behind : (t.behind es n).down tree p kind point at_ =
    let result := t.down tree p kind point at_
    (result.1, result.2.1, result.2.2.behind es n) := by
  have hclear : ∀ u : TouchTracker α,
      (if (u.touch? p).isSome then (u.cancel (.contact p) at_).2 else u) = u.cleared p at_ :=
    fun _ => rfl
  have hissue : ∀ u : TouchTracker α,
      (u.behind es n).issueId = (u.issueId.1, u.issueId.2.1, u.issueId.2.2.behind es n) :=
    fun _ => rfl
  simp only [down, hclear, cleared_behind, hissue, announce_behind]
  rfl

theorem move_behind : (t.behind es n).move tree p point at_ =
    let result := t.move tree p point at_
    (result.1, result.2.1, result.2.2.behind es n) := by
  have hr : (t.behind es n).touch? p = t.touch? p := rfl
  simp only [move, hr]
  cases t.touch? p with
  | none => rfl
  | some r =>
    simp only [announce_behind]
    rfl

theorem up_behind : (t.behind es n).up tree p point at_ =
    let result := t.up tree p point at_
    (result.1, result.2.1, result.2.2.behind es n) := by
  have hr : (t.behind es n).touch? p = t.touch? p := rfl
  simp only [up, hr]
  cases t.touch? p with
  | none => rfl
  | some r =>
    simp only [announce_behind]
    rfl

theorem oblivious_down :
    Oblivious fun t : TouchTracker α => (t.down tree p kind point at_).2.2 := fun t es n =>
  congrArg (·.2.2) (down_behind t es n tree p kind point at_)

theorem oblivious_move :
    Oblivious fun t : TouchTracker α => (t.move tree p point at_).2.2 := fun t es n =>
  congrArg (·.2.2) (move_behind t es n tree p point at_)

theorem oblivious_up :
    Oblivious fun t : TouchTracker α => (t.up tree p point at_).2.2 := fun t es n =>
  congrArg (·.2.2) (up_behind t es n tree p point at_)

end ViewHost.TouchTracker
