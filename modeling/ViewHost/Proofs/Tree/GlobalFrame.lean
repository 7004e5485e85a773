import ViewHost.Proofs.Geometry.Enclosure
import ViewHost.Proofs.Geometry.Inverse
import ViewHost.Proofs.Tree.Projection

/-!
# Boxes in the space of a root

The box of a view in the space of a root is put around its mapped corners, and the map is the
product of the maps out of the views on the way up. Points go the other way by the product of the
maps into these views. Over exact numbers each of them is inverse to the map out, so the products
are inverse to each other, however long the way. Where the map out has positive third coordinates
at the corners, the box is around the image of the whole view, and what is converted into the view
is the image of what it is converted to.
-/

namespace ViewHost.Tree

open Transform

variable {t : Tree Rat} {root tag : Tag} {h : Handle} {n : Node Rat} {ns : List (Node Rat)}

/-- The map from the space of a view into that of its parent. -/
def outward? (t : Tree Rat) (tag : Tag) : Option (Transform Rat) :=
  (t.view? tag).map (·.parentFromLocal)

/-- The product of some maps, the first of them applied first. -/
def outwardProduct (outs : List (Transform Rat)) : Transform Rat :=
  outs.foldl (fun acc out => out.combine acc) .identity

theorem WellFormed.outward?_tagOf (wf : t.WellFormed) (hn : t.nodes[h]? = some n) :
    t.outward? (t.tagOf h) = some n.view.parentFromLocal := by
  rw [outward?, view?_eq (wf.handle?_tagOf (mem_nodes_iff.2 ⟨n, hn⟩)) hn, Option.map_some]

theorem WellFormed.mapM_outward? (wf : t.WellFormed)
    (hns : ∀ n ∈ ns, ∃ k : Handle, t.nodes[k]? = some n) :
    (ns.map (·.view.tag)).mapM t.outward? = some (ns.map (·.view.parentFromLocal)) := by
  induction ns with
  | nil => rfl
  | cons n ns ih =>
    rw [List.forall_mem_cons] at hns
    obtain ⟨⟨k, hk⟩, hns⟩ := hns
    rw [List.map_cons, List.mapM_cons, ih hns, ← tagOf_of_node hk, wf.outward?_tagOf hk]
    rfl

theorem outwardProduct_eq (ns : List (Node Rat)) :
    outwardProduct (ns.map (·.view.parentFromLocal)) = rootFromLocal ns := by
  rw [outwardProduct, List.foldl_map]
  rfl

/-- A product of affine maps is affine. -/
theorem isAffine_outwardProduct {outs : List (Transform Rat)} (houts : ∀ out ∈ outs, out.IsAffine) :
    (outwardProduct outs).IsAffine := by
  suffices hfold : ∀ acc : Transform Rat, acc.IsAffine →
      (outs.foldl (fun acc out => out.combine acc) acc).IsAffine from hfold _ isAffine_identity
  induction outs with
  | nil => exact fun _ hacc => hacc
  | cons out outs ih =>
    rw [List.forall_mem_cons] at houts
    exact fun acc hacc => ih houts.2 _ (houts.1.combine hacc)

/-- The maps out of some nodes undo the maps into them, which are applied in the opposite order. -/
theorem rootFromLocal_combine {steps : List (Transform Rat)}
    (hsteps : ns.mapM (·.view.localFromParent) = some steps) :
    (rootFromLocal ns).combine (steps.foldl combine identity) = identity := by
  -- what has been put together already stands between the maps that are still to come
  suffices hfold : ∀ outer inner : Transform Rat, outer.combine inner = identity →
      (ns.foldl (fun acc n => n.view.parentFromLocal.combine acc) outer).combine
        (steps.foldl combine inner) = identity from hfold _ _ (combine_identity _)
  induction ns generalizing steps with
  | nil =>
    cases hsteps
    exact fun _ _ hacc => hacc
  | cons n ns ih =>
    intro outer inner hacc
    cases hm : n.view.localFromParent with
    | none => simp [hm] at hsteps
    | some m =>
      cases hrest : ns.mapM (·.view.localFromParent) with
      | none => simp [hm, hrest] at hsteps
      | some rest =>
        obtain rfl : m :: rest = steps := by simpa [hm, hrest] using hsteps
        refine ih hrest _ _ ?_
        calc (n.view.parentFromLocal.combine outer).combine (inner.combine m)
          _ = n.view.parentFromLocal.combine ((outer.combine inner).combine m) := by
            simp only [combine_assoc]
          _ = n.view.parentFromLocal.combine m := by rw [hacc, identity_combine]
          _ = identity := (combine_of_invert hm).2

/-- What is converted into a view is brought back by the product of the maps out, unless it is
sent to infinity. -/
theorem rootFromLocal_applyToPoint {m : Transform Rat} {p : Vec2 Rat}
    (hm : gather root tag identity ns true = .ok m) (hw : m.weight p ≠ 0) :
    (rootFromLocal ns).applyToPoint (m.applyToPoint p) = p := by
  obtain ⟨-, steps, hsteps, rfl⟩ := gather_eq_ok.1 hm
  exact applyToPoint_applyToPoint (rootFromLocal_combine hsteps) hw

theorem WellFormed.isAffine_parentFromLocal (wf : t.WellFormed)
    (hns : ∀ n ∈ ns, ∃ k : Handle, t.nodes[k]? = some n)
    (haffine : ∀ x ∈ ns.map (·.view.tag), ∀ u, t.view? x = some u → u.transform.IsAffine) :
    ∀ out ∈ ns.map (·.view.parentFromLocal), out.IsAffine := by
  intro out hout
  obtain ⟨n, hn, rfl⟩ := List.mem_map.1 hout
  obtain ⟨k, hk⟩ := hns n hn
  apply View.isAffine_parentFromLocal
  refine haffine _ (List.mem_map_of_mem hn) _ ?_
  rw [← tagOf_of_node hk]
  exact view?_eq (wf.handle?_tagOf (mem_nodes_iff.2 ⟨n, hk⟩)) hk

/-- The box of a view that lies below a root is the one around its corners, mapped by the product
of the maps out of the views on the path, that of the view first: it encloses their images, and
each of its sides goes through one of them. The third coordinates are one if the views on the path
have affine transforms. If they are positive at the corners, the box encloses the image of every
point of the view, and every point of the root's space that is converted into the view without
being sent to infinity. -/
theorem Reachable.globalFrame_encloses (ht : t.Reachable) {path : List Tag}
    (hpath : t.path? root tag = some path) :
    ∃ v outs box, t.view? tag = some v ∧ path.tail.reverse.mapM t.outward? = some outs ∧
      t.globalFrame tag root = .ok box ∧
      let m := outwardProduct outs
      (∀ c ∈ v.bounds.vertices, box.Encloses (m.applyToPoint c)) ∧
      (∃ c ∈ v.bounds.vertices, (m.applyToPoint c).x = box.x) ∧
      (∃ c ∈ v.bounds.vertices, (m.applyToPoint c).x = box.x + box.w) ∧
      (∃ c ∈ v.bounds.vertices, (m.applyToPoint c).y = box.y) ∧
      (∃ c ∈ v.bounds.vertices, (m.applyToPoint c).y = box.y + box.h) ∧
      ((∀ x ∈ path.tail, ∀ u, t.view? x = some u → u.transform.IsAffine) →
        ∀ q, m.weight q = 1) ∧
      ((∀ c ∈ v.bounds.vertices, 0 < m.weight c) →
        (∀ q, v.bounds.Encloses q → box.Encloses (m.applyToPoint q)) ∧
        ∀ inward p q, t.rootToLocal root tag = .ok inward → inward.weight p ≠ 0 →
          t.convertPoint p root tag = .ok q → v.bounds.Encloses q → box.Encloses p) := by
  have wf := ht.wellFormed
  obtain ⟨r, h, hr, hh⟩ := handles_of_path? hpath
  obtain ⟨⟨passed, arrived⟩, hway, hclimbs, -⟩ := wf.ascent_eq_ok hr hh
  obtain ⟨rfl, rfl⟩ := (path?_eq_some hway).1 hpath
  obtain ⟨n, hn, -⟩ := wf.exists_node hh
  have hlive := fun n (hn : n ∈ passed) => hclimbs.exists_handle hn
  have hbox : t.globalFrame tag root = .ok ((rootFromLocal passed).applyToRect n.view.bounds) :=
    globalFrame_eq hway (view?_eq hh hn)
  rw [List.tail_cons, List.reverse_reverse]
  refine ⟨n.view, _, _, view?_eq hh hn, wf.mapM_outward? hlive, hbox, ?_⟩
  rw [outwardProduct_eq]
  obtain ⟨hcorners, hleft, hright, htop, hbottom⟩ :=
    applyToRect_corners (rootFromLocal passed) n.view.bounds
  refine ⟨hcorners, hleft, hright, htop, hbottom, fun haffine q => ?_, fun hpositive => ?_⟩
  · have hout := wf.isAffine_parentFromLocal hlive fun x hx => haffine x (List.mem_reverse.2 hx)
    exact (outwardProduct_eq passed ▸ isAffine_outwardProduct hout).weight q
  · have hinside := fun q (hq : n.view.bounds.Encloses q) => applyToRect_encloses hpositive hq
    refine ⟨hinside, fun inward p q hinward hw hq hbounds => ?_⟩
    rw [convertPoint, hinward] at hq
    obtain rfl : inward.applyToPoint p = q := Except.ok.inj hq
    rw [rootToLocal_eq_gather hway] at hinward
    exact rootFromLocal_applyToPoint hinward hw ▸ hinside _ hbounds

/-- On the way out of the inner view its corners are divided by 11/20, 17/20, 23/20 and 29/20. A
point of the root's space is in its box because it is converted to a point of the view. -/
theorem recessed_globalFrame_encloses : recessed.Reachable ∧
    recessed.path? ⟨1⟩ ⟨3⟩ = some [⟨1⟩, ⟨2⟩, ⟨3⟩] ∧
    ∃ outs box, [⟨3⟩, ⟨2⟩].mapM recessed.outward? = some outs ∧
      (Rect.vertices ⟨0, 0, 60, 60⟩).map (outwardProduct outs).weight =
        [11 / 20, 17 / 20, 23 / 20, 29 / 20] ∧
      recessed.convertPoint ⟨40, 40⟩ ⟨1⟩ ⟨3⟩ = .ok ⟨490 / 23, 490 / 23⟩ ∧
      recessed.globalFrame ⟨3⟩ ⟨1⟩ = .ok box ∧ box.Encloses ⟨40, 40⟩ := by
  have hreach : recessed.Reachable := Reachable.empty.foldl _
  have hway : recessed.path? ⟨1⟩ ⟨3⟩ = some [⟨1⟩, ⟨2⟩, ⟨3⟩] := by cbv
  have hbounds : (recessed.view? ⟨3⟩).map (·.bounds) = some ⟨0, 0, 60, 60⟩ := by cbv
  have hweights : ([⟨3⟩, ⟨2⟩].mapM recessed.outward?).map (fun outs =>
      (Rect.vertices ⟨0, 0, 60, 60⟩).map (outwardProduct outs).weight) =
        some [11 / 20, 17 / 20, 23 / 20, 29 / 20] := by cbv
  have hinward : (recessed.rootToLocal ⟨1⟩ ⟨3⟩).toOption.map (·.weight ⟨40, 40⟩) =
      some (23 / 20) := by cbv
  have hconvert : recessed.convertPoint ⟨40, 40⟩ ⟨1⟩ ⟨3⟩ = .ok ⟨490 / 23, 490 / 23⟩ := by cbv
  obtain ⟨v, outs, box, hv, houts, hbox, -, -, -, -, -, -, hpositive⟩ :=
    hreach.globalFrame_encloses hway
  have houts' : [⟨3⟩, ⟨2⟩].mapM recessed.outward? = some outs := houts
  rw [hv] at hbounds
  rw [houts'] at hweights
  have hweights : (Rect.vertices ⟨0, 0, 60, 60⟩).map (outwardProduct outs).weight =
      [11 / 20, 17 / 20, 23 / 20, 29 / 20] := Option.some.inj hweights
  have hcorners : ∀ c ∈ Rect.vertices ⟨0, 0, 60, 60⟩, 0 < (outwardProduct outs).weight c := by
    intro c hc
    have hmem := List.mem_map_of_mem (f := (outwardProduct outs).weight) hc
    rw [hweights] at hmem
    simp only [List.mem_cons, List.not_mem_nil, or_false] at hmem
    obtain hw | hw | hw | hw := hmem <;> rw [hw] <;> norm_num
  rw [show v.bounds = ⟨0, 0, 60, 60⟩ from Option.some.inj hbounds] at hpositive
  refine ⟨hreach, hway, outs, box, houts', hweights, hconvert, hbox, ?_⟩
  cases hm : recessed.rootToLocal ⟨1⟩ ⟨3⟩ with
  | error e =>
    rw [hm] at hinward
    cases hinward
  | ok inward =>
    rw [hm] at hinward
    have hw : inward.weight ⟨40, 40⟩ = 23 / 20 := Option.some.inj hinward
    refine (hpositive hcorners).2 inward ⟨40, 40⟩ _ hm ?_ hconvert ?_
    · rw [hw]
      norm_num
    · constructor <;> norm_num

end ViewHost.Tree
