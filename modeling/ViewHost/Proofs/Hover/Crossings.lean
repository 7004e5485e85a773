import Mathlib.Data.List.Nodup
import ViewHost.Hover.Tracker

/-!
# Crossings

For one view, hovering is a matter of being entered and left in turn. A path that
names no view twice keeps to this when another such path replaces it: the views that
both begin with hear nothing, and of the others those on the old path are left once
and those on the new one entered once, in this order if a view is on both.

A path that is cut off is another matter. The views that were on it hear nothing, so
a view whose path is cut off above it is lost to hovering, be it destroyed or not.
-/

namespace ViewHost

variable {α : Type}

/-- What becomes of one view, as far as hovering goes. -/
inductive Crossing where
  | entered
  | left
  /-- No longer hovered over, and not left. -/
  | lost
  deriving DecidableEq, Repr

namespace Crossing

/-- The crossing `d` may come next after `c`. A view is not entered twice without being
left or lost in between, and only what has been entered is left. -/
def Precedes (c : Crossing) : Crossing → Prop
  | entered => c ≠ entered
  | left => c = entered
  | lost => True

instance : (c d : Crossing) → Decidable (c.Precedes d)
  | c, .entered => inferInstanceAs (Decidable (c ≠ .entered))
  | c, .left => inferInstanceAs (Decidable (c = .entered))
  | _, .lost => inferInstanceAs (Decidable True)

/-- The crossings alternate, beginning with an entry and anew after every loss. -/
def InTurn (cs : List Crossing) : Prop := (lost :: cs).IsChain Precedes

instance (cs : List Crossing) : Decidable (InTurn cs) :=
  inferInstanceAs (Decidable ((lost :: cs).IsChain Precedes))

/-- Whether the view is hovered over after a crossing, if that can come next. -/
def follow : Bool → Crossing → Option Bool
  | false, entered => some true
  | true, left => some false
  | _, lost => some false
  | _, _ => none

/-- Whether the view is hovered over after some crossings, if they are in turn. -/
def scan (inside : Bool) (cs : List Crossing) : Option Bool := cs.foldlM follow inside

@[simp] theorem scan_nil (inside : Bool) : scan inside [] = some inside := rfl

theorem scan_append (inside : Bool) (cs ds : List Crossing) :
    scan inside (cs ++ ds) = (scan inside cs).bind (scan · ds) :=
  List.foldlM_append

theorem follow_eq (c d : Crossing) :
    follow (c = entered) d = if c.Precedes d then some (d = entered : Bool) else none := by
  cases c <;> cases d <;> rfl

/-- To be hovered over is to have been entered last. -/
theorem scan_eq_some_iff {c : Crossing} {cs : List Crossing} {inside : Bool} :
    scan (c = entered) cs = some inside ↔
      (c :: cs).IsChain Precedes ∧ (inside = true ↔ (c :: cs).getLast? = some entered) := by
  induction cs generalizing c with
  | nil => cases inside <;> simp
  | cons d cs ih =>
    rw [scan, List.foldlM_cons, follow_eq, List.isChain_cons_cons, List.getLast?_cons_cons]
    by_cases hcd : c.Precedes d
    · rw [if_pos hcd, and_iff_right hcd]
      exact ih
    · simp [hcd]

end Crossing

/-- What a change means to the view with a tag. -/
def HoverChange.crossing? (tag : Tag) : HoverChange → Option Crossing
  | .enter t => if t = tag then some .entered else none
  | .leave t => if t = tag then some .left else none

variable {tag : Tag} {xs old next : List Tag}

theorem filterMap_of_nodup (hxs : xs.Nodup) (c : Crossing) :
    xs.filterMap (fun x => if x = tag then some c else none) = if tag ∈ xs then [c] else [] := by
  induction xs with
  | nil => rfl
  | cons x xs ih =>
    obtain ⟨hx, hxs⟩ := List.nodup_cons.1 hxs
    rw [List.filterMap_cons, ih hxs]
    by_cases htag : x = tag
    · subst htag
      simp [hx]
    · simp [htag, Ne.symm htag]

/-- A view is on a path up to its first gap if neither it nor one before it is a gap. -/
theorem mem_takeWhile_iff {p : Tag → Bool} :
    tag ∈ xs.takeWhile p ↔ tag ∈ xs ∧ p tag = true ∧ ∀ x ∈ xs.takeWhile (· ≠ tag), p x = true := by
  induction xs with
  | nil => simp
  | cons x xs ih =>
    by_cases htag : x = tag
    · subst htag
      by_cases hp : p x = true <;> simp [hp]
    · by_cases hp : p x = true
      · simp [hp, htag, Ne.symm htag, ih]
      · simp [hp, htag]

namespace HoverTracker

theorem take_common (old next : List Tag) :
    old.take (common old next) = next.take (common old next) := by
  fun_induction common old next with
  | case1 a as bs ih => rw [List.take_succ_cons, List.take_succ_cons, ih]
  | case2 => rfl
  | case3 => rfl

/-- The paths are the same up to a point. Behind it, the old one is left and the new
one entered. -/
theorem exists_split (t : HoverTracker) (next : List Tag) :
    ∃ shared old new, t.path = shared ++ old ∧ next = shared ++ new ∧
      (t.updatePath next).1 = old.reverse.map .leave ++ new.map .enter := by
  refine ⟨t.path.take (common t.path next), _, _, (List.take_append_drop ..).symm, ?_, rfl⟩
  rw [take_common, List.take_append_drop]

/-- To each view a change of the path is a crossing in turn, or nothing. -/
theorem scan_updatePath (t : HoverTracker) (hpath : t.path.Nodup) (hnext : next.Nodup)
    (tag : Tag) :
    Crossing.scan (tag ∈ t.path) ((t.updatePath next).1.filterMap (·.crossing? tag)) =
      some (decide (tag ∈ next)) := by
  obtain ⟨shared, old, new, hsplit, rfl, hchanges⟩ := t.exists_split next
  rw [hsplit] at hpath ⊢
  obtain ⟨-, hold, hshared⟩ := List.nodup_append'.1 hpath
  obtain ⟨-, hnew, hshared'⟩ := List.nodup_append'.1 hnext
  have hleft : (old.reverse.map HoverChange.leave).filterMap (·.crossing? tag) =
      if tag ∈ old.reverse then [.left] else [] := by
    rw [List.filterMap_map, ← filterMap_of_nodup (List.nodup_reverse.2 hold)]
    rfl
  have hentered : (new.map HoverChange.enter).filterMap (·.crossing? tag) =
      if tag ∈ new then [.entered] else [] := by
    rw [List.filterMap_map, ← filterMap_of_nodup hnew]
    rfl
  rw [hchanges, List.filterMap_append, hleft, hentered]
  by_cases htag : tag ∈ shared
  · have hold : tag ∉ old := fun hc => hshared htag hc
    have hnew : tag ∉ new := fun hc => hshared' htag hc
    simp [htag, hold, hnew]
  · by_cases hold : tag ∈ old <;> by_cases hnew : tag ∈ new <;>
      simp [htag, hold, hnew, Crossing.scan, Crossing.follow]

end HoverTracker

end ViewHost
