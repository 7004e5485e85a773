import ViewHost.Proofs.Geometry.Homogeneous
import ViewHost.Proofs.Tree.Walks

/-!
# Points carried to the view they hit

A hit test carries its point down one view at a time, and divides at every one that
foreshortens. A touch takes the map from the root into the space of its target instead,
which is a product of matrices, and divides once. Over exact numbers the two come to the
same point, unless some view on the way sends the point to infinity: up to a factor, the
third coordinate that is divided by in the end is the product of those that were divided by
on the way. So a touch begins inside the region in which its target was hit.
-/

namespace ViewHost

namespace Transform

section

variable {α : Type} [Scalar α]

/-- The third coordinates that come up when a point is carried by some maps, the last of
them first. -/
def weights : List (Transform α) → Vec2 α → List α
  | [], _ => []
  | m :: before, p => m.weight (before.foldr applyToPoint p) :: weights before p

end

/-- A product with further factors maps a point as the factors do, the last of them first,
unless one of them sends it to infinity. -/
theorem foldl_combine_carries {acc : Transform Rat} {steps : List (Transform Rat)} {p : Vec2 Rat}
    (hsteps : ∀ w ∈ weights steps p, w ≠ 0)
    (hacc : acc.weight (steps.foldr applyToPoint p) ≠ 0) :
    (steps.foldl combine acc).weight p =
        acc.weight (steps.foldr applyToPoint p) * (weights steps p).prod ∧
      (steps.foldl combine acc).applyToPoint p =
        acc.applyToPoint (steps.foldr applyToPoint p) := by
  -- the factors so far map the point last, so they are what the induction has to leave open
  induction steps generalizing acc with
  | nil => exact ⟨(mul_one _).symm, rfl⟩
  | cons m steps ih =>
    rw [weights, List.forall_mem_cons] at hsteps
    obtain ⟨hm, hsteps⟩ := hsteps
    let q := steps.foldr applyToPoint p
    have hweight : (acc.combine m).weight q = acc.weight (m.applyToPoint q) * m.weight q :=
      weight_combine acc hm
    have hnext : (acc.combine m).weight q ≠ 0 := by
      rw [hweight]
      exact mul_ne_zero hacc hm
    obtain ⟨hprod, happly⟩ := ih hsteps hnext
    refine ⟨?_, ?_⟩
    · rw [List.foldl_cons, hprod, hweight, weights, List.prod_cons, mul_assoc]
      rfl
    · rw [List.foldl_cons, happly]
      exact applyToPoint_combine hm hacc

/-- The product of some maps carries a point as the maps do, and its weight is the product
of theirs. -/
theorem foldl_combine_identity {steps : List (Transform Rat)} {p : Vec2 Rat}
    (hsteps : ∀ w ∈ weights steps p, w ≠ 0) :
    (steps.foldl combine identity).weight p = (weights steps p).prod ∧
      (steps.foldl combine identity).applyToPoint p = steps.foldr applyToPoint p := by
  have hone : identity.weight (steps.foldr applyToPoint p) = 1 := weight_identity _
  have hne : identity.weight (steps.foldr applyToPoint p) ≠ 0 := by
    rw [hone]
    exact one_ne_zero
  obtain ⟨hweight, happly⟩ := foldl_combine_carries hsteps hne
  rw [hone, one_mul] at hweight
  rw [applyToPoint_identity] at happly
  exact ⟨hweight, happly⟩

end Transform

namespace Tree

open Transform

variable {t : Tree Rat} {root tag : Tag} {p : Vec2 Rat}

/-- The maps of the views on the path to a hit, that of the target first, carry the point
into the region in which the target is hit. Unless one of them sends it to infinity, the map
from the root into the space of the target, which is their product, sends it there as well,
and this is where the touch of a pointer that goes down begins. -/
theorem Reachable.touch_begins_where_carried (ht : t.Reachable)
    (hhit : t.hitTest p root = some tag) :
    ∃ path steps m v, t.path? root tag = some path ∧
      path.tail.reverse.mapM t.inward? = some steps ∧ t.rootToLocal root tag = .ok m ∧
      t.view? tag = some v ∧
      let q := steps.foldr applyToPoint p
      v.hitBounds.contains q = true ∧
      ((∀ w ∈ weights steps p, w ≠ 0) →
        m.weight p = (weights steps p).prod ∧ m.applyToPoint p = q ∧
        ∀ (touches : TouchTracker Rat) pointer kind at_, touches.root = root →
          let r := (touches.down t pointer kind p at_).1
          r.phase = .began ∧ r.target = some tag ∧ r.location = q ∧
            v.hitBounds.contains r.location = true) := by
  obtain ⟨path, steps, v, hpath, hsteps, hm, hv, hinside⟩ := ht.wellFormed.carried_of_hitTest hhit
  refine ⟨path, steps, _, v, hpath, hsteps, hm, hv, hinside, fun hweights => ?_⟩
  obtain ⟨hweight, happly⟩ := foldl_combine_identity hweights
  refine ⟨hweight, happly, fun touches pointer kind at_ hroot => ?_⟩
  subst hroot
  intro r
  obtain ⟨htarget, -, hlocation⟩ := Touch.begin_of_hit hhit hm r.id pointer kind at_
  have hr : r = Touch.begin r.id touches.root t pointer kind p at_ := touches.down_fst ..
  rw [← hr] at htarget hlocation
  have hq : r.location = steps.foldr applyToPoint p := hlocation.trans happly
  refine ⟨rfl, htarget, hq, ?_⟩
  rw [hq]
  exact hinside

/-- Two views in a row that foreshorten, the one to the side and the other downwards. -/
def recessed : Tree Rat :=
  [.create ⟨1⟩ .view, .setFrame ⟨1⟩ ⟨0, 0, 100, 100⟩,
    .create ⟨2⟩ .view, .setFrame ⟨2⟩ ⟨0, 0, 100, 100⟩, .setTransform ⟨2⟩ (.perspective (1 / 200) 0),
    .insert ⟨2⟩ ⟨1⟩ 0, .create ⟨3⟩ .view, .setFrame ⟨3⟩ ⟨20, 20, 60, 60⟩,
    .setTransform ⟨3⟩ (.perspective 0 (1 / 100)), .insert ⟨3⟩ ⟨2⟩ 0].foldl Tree.after .empty

/-- On the way to the inner one it is divided by 21/20 and by 23/21, and with the product of the
maps by 23/20. -/
theorem recessed_touch_begins_where_carried : recessed.Reachable ∧
    recessed.hitTest ⟨40, 40⟩ ⟨1⟩ = some ⟨3⟩ ∧
    ∃ steps m, [⟨3⟩, ⟨2⟩].mapM recessed.inward? = some steps ∧
      weights steps ⟨40, 40⟩ = [23 / 21, 21 / 20] ∧ recessed.rootToLocal ⟨1⟩ ⟨3⟩ = .ok m ∧
      m.weight ⟨40, 40⟩ = 23 / 20 ∧ m.applyToPoint ⟨40, 40⟩ = ⟨490 / 23, 490 / 23⟩ ∧
      ∀ (touches : TouchTracker Rat) pointer kind at_, touches.root = ⟨1⟩ →
        (touches.down recessed pointer kind ⟨40, 40⟩ at_).1.location = ⟨490 / 23, 490 / 23⟩ := by
  have hreach : recessed.Reachable := Reachable.empty.foldl _
  have hhit : recessed.hitTest ⟨40, 40⟩ ⟨1⟩ = some ⟨3⟩ := by cbv
  have hway : recessed.path? ⟨1⟩ ⟨3⟩ = some [⟨1⟩, ⟨2⟩, ⟨3⟩] := by cbv
  have hcarried : ([⟨3⟩, ⟨2⟩].mapM recessed.inward?).map (fun steps =>
      (weights steps ⟨40, 40⟩, steps.foldr applyToPoint ⟨40, 40⟩)) =
        some ([23 / 21, 21 / 20], ⟨490 / 23, 490 / 23⟩) := by cbv
  obtain ⟨path, steps, m, v, hpath, hsteps, hm, -, -, hagree⟩ :=
    hreach.touch_begins_where_carried hhit
  obtain rfl : [⟨1⟩, ⟨2⟩, ⟨3⟩] = path := Option.some.inj (hway.symm.trans hpath)
  have hmaps : [⟨3⟩, ⟨2⟩].mapM recessed.inward? = some steps := hsteps
  rw [hmaps] at hcarried
  obtain ⟨hweights, hpoint⟩ := Prod.mk.inj (Option.some.inj hcarried)
  rw [hweights, hpoint] at hagree
  obtain ⟨hweight, happly, htouch⟩ := hagree (by norm_num)
  refine ⟨hreach, hhit, steps, m, hmaps, hweights, hm, hweight.trans (by norm_num), happly, ?_⟩
  intro touches pointer kind at_ hroot
  exact (htouch touches pointer kind at_ hroot).2.2.1

end Tree

end ViewHost
