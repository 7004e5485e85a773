import Mathlib.Data.Set.Card
import ViewHost.Proofs.Tree.Removal
import ViewHost.Proofs.Tree.Subtree

/-!
# Views that leave

A view leaves the children of another one when it is put elsewhere, taken off, or destroyed. To
the outside, which knows views by their tags, the old parent then has the same children in the
same order but for that one. Destroying a view takes the views below it as well; those are just
the views that are counted, and of the others only the old parent is changed.
-/

namespace ViewHost.Tree

variable {α : Type} {t t' : Tree α} {h k : Handle} {tag x : Tag}

/-! ## By tag -/

/-- Leaving a node out of a list leaves its tag out of the list of tags. -/
theorem WellFormed.map_tagOf_filter_ne (wf : t.WellFormed) (hh : t.handle? tag = some h)
    {ks : List Handle} (hlive : ∀ k ∈ ks, k ∈ t.nodes) :
    (ks.filter (· ≠ h)).map t.tagOf = (ks.map t.tagOf).filter (· ≠ tag) := by
  rw [List.filter_map]
  refine congrArg _ (List.filter_congr fun k hk => ?_)
  have htag := (wf.handle?_eq_some_iff.1 hh).2
  have hiff : k = h ↔ t.tagOf k = tag := by
    constructor
    · rintro rfl
      exact htag
    · exact fun hk' => wf.tagOf_inj (hlive k hk) (wf.mem_nodes_of_handle? hh) (hk'.trans htag.symm)
  simp [hiff]

/-- A node that lost `h` and no other child shows it under its tag. -/
theorem WellFormed.children_eq_filter (wf : t.WellFormed) (wf' : t'.WellFormed)
    (hh : t.handle? tag = some h) (hx : t.handle? x = some k) (hx' : t'.handle? x = some k)
    (htags : ∀ c ∈ t'.nodes, t'.tagOf c = t.tagOf c)
    (hchildren : t'.childrenOf k = (t.childrenOf k).filter (· ≠ h))
    (hpainted : t'.paintedOf k = (t.paintedOf k).filter (· ≠ h)) :
    t'.children x = (t.children x).filter (· ≠ tag) ∧
      t'.paintedChildren x = (t.paintedChildren x).filter (· ≠ tag) := by
  have hlive : ∀ c ∈ t'.childrenOf k, c ∈ t'.nodes := fun c hc =>
    wf'.mem_nodes_of_mem_childrenOf hc
  constructor
  · rw [wf'.children_eq hx', wf.children_eq hx,
      ← wf.map_tagOf_filter_ne hh fun c hc => wf.mem_nodes_of_mem_childrenOf hc, ← hchildren]
    exact List.map_congr_left fun c hc => htags c (hlive c hc)
  · rw [wf'.paintedChildren_eq hx', wf.paintedChildren_eq hx,
      ← wf.map_tagOf_filter_ne hh fun c hc =>
        wf.mem_nodes_of_mem_childrenOf (wf.mem_paintedOf_iff.1 hc), ← hpainted]
    exact List.map_congr_left fun c hc => htags c (hlive c (wf'.mem_paintedOf_iff.1 hc))

/-- Of a view that is not there nothing is shown. -/
theorem shows_of_handle?_eq_none (hx : t.handle? x = none) :
    t.view? x = none ∧ t.parent? x = none ∧ t.children x = [] ∧ t.paintedChildren x = [] := by
  simp [view?, parent?, children, paintedChildren, node?, hx]

/-- The children of a view are those whose parent it is. -/
theorem WellFormed.mem_children_iff (wf : t.WellFormed) :
    tag ∈ t.children x ↔ t.parent? tag = some x := by
  constructor
  · intro hmem
    cases hx : t.handle? x with
    | none =>
      rw [(shows_of_handle?_eq_none hx).2.2.1] at hmem
      cases hmem
    | some k =>
      rw [wf.children_eq hx, List.mem_map] at hmem
      obtain ⟨c, hc, htag⟩ := hmem
      rw [← htag, wf.parent?_tagOf (wf.mem_childrenOf_iff.1 hc), (wf.handle?_eq_some_iff.1 hx).2]
  · intro hparent
    cases hh : t.handle? tag with
    | none => cases (shows_of_handle?_eq_none hh).2.1.symm.trans hparent
    | some h =>
      rw [wf.parent?_eq hh, Option.map_eq_some_iff] at hparent
      obtain ⟨k, hk, htag⟩ := hparent
      have hx : t.handle? x = some k := htag ▸ wf.handle?_tagOf (wf.parent_mem_nodes hk)
      rw [wf.children_eq hx, List.mem_map]
      exact ⟨h, wf.mem_childrenOf_iff.2 hk, (wf.handle?_eq_some_iff.1 hh).2⟩

/-- A view that is not the parent of `tag` has nothing to lose by its leaving. -/
theorem WellFormed.filter_children_eq_self (wf : t.WellFormed)
    (hparent : t.parent? tag ≠ some x) :
    (t.children x).filter (· ≠ tag) = t.children x ∧
      (t.paintedChildren x).filter (· ≠ tag) = t.paintedChildren x := by
  have hmem : tag ∉ t.children x := mt wf.mem_children_iff.1 hparent
  have hpainted : tag ∉ t.paintedChildren x :=
    mt (wf.stablySorted_paintedChildren x).mem_iff.1 hmem
  have hfilter : ∀ {xs : List Tag}, tag ∉ xs → xs.filter (· ≠ tag) = xs := by
    intro xs hxs
    rw [List.filter_eq_self]
    intro c hc
    exact decide_eq_true (ne_of_mem_of_not_mem hc hxs)
  exact ⟨hfilter hmem, hfilter hpainted⟩

/-- The parent of a view is not in its subtree. -/
theorem WellFormed.parent?_ne_of_within (wf : t.WellFormed) (hh : t.handle? tag = some h)
    (hx : t.Within tag x) : t.parent? tag ≠ some x := by
  intro hparent
  obtain ⟨k, hk, hanc⟩ := wf.exists_handle_of_within hh hx
  obtain ⟨h', hh', hp⟩ := wf.isParent_of_parent? hk hparent
  cases hh.symm.trans hh'
  exact wf.not_isAncestor_of_isParent hp hanc

/-! ## Removal -/

/-- Each node that a sweep destroys is counted once. -/
theorem size_sweep (t : Tree α) (todo : List Handle) :
    (t.sweep todo).1 + (t.sweep todo).2.size = t.size := by
  induction t, todo using sweep_induction with
  | done t => rw [sweep_nil, Nat.zero_add]
  | gone t h rest hh ih =>
    rw [sweep_of_none hh]
    exact ih
  | found t h n rest hn ih =>
    have hlive : h ∈ t.nodes := mem_nodes_iff.2 ⟨n, hn⟩
    have hsize : (t.without h n.view.tag).size + 1 = t.size := by
      have hpos : t.nodes.size ≠ 0 := fun h0 => by
        simp [Std.ExtTreeMap.eq_empty_iff_size_eq_zero.2 h0] at hlive
      simp only [size, without, Std.ExtTreeMap.size_erase, Std.ExtTreeMap.contains_iff_mem, hlive,
        if_true]
      omega
    rw [sweep_of_node hn, ← hsize, ← ih, Nat.add_right_comm]
    rfl

namespace WellFormed

variable (wf : t.WellFormed) (hh : t.handle? tag = some h)

include wf hh

/-- What is left by a removal is what is not in the subtree. -/
theorem mem_nodes_remove_iff : k ∈ (t.remove tag).2.nodes ↔ k ∈ t.nodes ∧ ¬ t.IsAncestor h k := by
  rw [mem_nodes_iff, mem_nodes_iff]
  by_cases hk : t.IsAncestor h k
  · simp [wf.nodes_remove_of_isAncestor hh hk, hk]
  · rw [wf.nodes_remove_of_not_isAncestor hh hk]
    simp [hk]

theorem tagOf_remove (hk : k ∈ (t.remove tag).2.nodes) : (t.remove tag).2.tagOf k = t.tagOf k := by
  have hnot := ((wf.mem_nodes_remove_iff hh).1 hk).2
  rw [tagOf, tagOf, tagOf?, tagOf?, wf.nodes_remove_of_not_isAncestor hh hnot, Option.map_map]
  rfl

theorem handle?_remove_eq_some_iff :
    (t.remove tag).2.handle? x = some k ↔ t.handle? x = some k ∧ ¬ t.IsAncestor h k := by
  rw [(wf.remove tag).handle?_eq_some_iff, wf.handle?_eq_some_iff]
  constructor
  · rintro ⟨hk, rfl⟩
    obtain ⟨hlive, hnot⟩ := (wf.mem_nodes_remove_iff hh).1 hk
    exact ⟨⟨hlive, (wf.tagOf_remove hh hk).symm⟩, hnot⟩
  · rintro ⟨⟨hlive, rfl⟩, hnot⟩
    have hk := (wf.mem_nodes_remove_iff hh).2 ⟨hlive, hnot⟩
    exact ⟨hk, wf.tagOf_remove hh hk⟩

theorem contains_remove_iff :
    (t.remove tag).2.contains x = true ↔ t.contains x = true ∧ ¬ t.Within tag x := by
  simp only [exists_handle_iff, wf.handle?_remove_eq_some_iff hh]
  constructor
  · rintro ⟨k, hk, hnot⟩
    exact ⟨⟨k, hk⟩, mt (wf.within_iff hh hk).1 hnot⟩
  · rintro ⟨⟨k, hk⟩, hnot⟩
    exact ⟨k, hk, mt (wf.within_iff hh hk).2 hnot⟩

/-- The nodes that are counted are those of the subtree. -/
theorem remove_fst_eq_card [DecidablePred (t.IsAncestor h)] :
    (t.remove tag).1 = (t.live.filter (t.IsAncestor h)).card := by
  have hleft : (t.remove tag).2.live = t.live.filter (¬ t.IsAncestor h ·) := by
    ext k
    rw [mem_live_iff, wf.mem_nodes_remove_iff hh, Finset.mem_filter, mem_live_iff]
  have hsize : (t.remove tag).1 + (t.remove tag).2.size = t.size := by
    obtain ⟨t₁, hsevered, heq⟩ := wf.exists_sweep_of_remove hh
    rw [heq, size_sweep, hsevered.size_eq]
  have hsplit := t.live.card_filter_add_card_filter_not (t.IsAncestor h)
  rw [← card_live, ← card_live, hleft] at hsize
  omega

/-- The views that are counted are those of the subtree. -/
theorem remove_fst_eq_encard :
    ((t.remove tag).1 : ℕ∞) = {x | t.contains x = true ∧ t.Within tag x}.encard := by
  classical
  have himage : {x | t.contains x = true ∧ t.Within tag x} =
      t.tagOf '' ↑(t.live.filter (t.IsAncestor h)) := by
    ext x
    simp only [Set.mem_ofPred_eq, Set.mem_image, Finset.mem_coe, Finset.mem_filter, mem_live_iff]
    constructor
    · rintro ⟨hx, hw⟩
      obtain ⟨k, hk⟩ := exists_handle_iff.1 hx
      obtain ⟨hlive, htag⟩ := wf.handle?_eq_some_iff.1 hk
      exact ⟨k, ⟨hlive, (wf.within_iff hh hk).1 hw⟩, htag⟩
    · rintro ⟨k, ⟨hlive, hanc⟩, rfl⟩
      have hk := wf.handle?_tagOf hlive
      exact ⟨exists_handle_iff.2 ⟨k, hk⟩, (wf.within_iff hh hk).2 hanc⟩
  have hinj : Set.InjOn t.tagOf ↑(t.live.filter (t.IsAncestor h)) := by
    intro k hk k' hk' htag
    rw [Finset.mem_coe, Finset.mem_filter, mem_live_iff] at hk hk'
    exact wf.tagOf_inj hk.1 hk'.1 htag
  rw [himage, hinj.encard_image, Set.encard_coe_eq_coe_finsetCard, wf.remove_fst_eq_card hh]

/-- A view that is left shows what it showed before, but for the one that left. -/
theorem shows_remove (hx : (t.remove tag).2.contains x = true) :
    (t.remove tag).2.view? x = t.view? x ∧ (t.remove tag).2.parent? x = t.parent? x ∧
      (t.remove tag).2.children x = (t.children x).filter (· ≠ tag) ∧
      (t.remove tag).2.paintedChildren x = (t.paintedChildren x).filter (· ≠ tag) := by
  have wf' := wf.remove tag
  obtain ⟨k, hx'⟩ := exists_handle_iff.1 hx
  obtain ⟨hx, hnot⟩ := (wf.handle?_remove_eq_some_iff hh).1 hx'
  obtain ⟨n, hn, -⟩ := wf.exists_node hx
  have hn' := wf.nodes_remove_of_not_isAncestor hh hnot
  rw [hn, Option.map_some] at hn'
  have hne : k ≠ h := fun heq => hnot (heq ▸ .refl)
  refine ⟨?_, ?_, wf.children_eq_filter wf' hh hx hx' (fun c hc => wf.tagOf_remove hh hc) ?_ ?_⟩
  · rw [view?_eq hx' hn', view?_eq hx hn]
    rfl
  · have hparent : (t.remove tag).2.parentOf? k = t.parentOf? k := by
      rw [parentOf?_of_node hn', parentOf?_of_node hn, Node.severed, if_neg hne]
    rw [wf'.parent?_eq hx', wf.parent?_eq hx, ← hparent]
    cases hp : (t.remove tag).2.parentOf? k with
    | none => rfl
    | some p => exact congrArg some (wf.tagOf_remove hh (wf'.parent_mem_nodes hp))
  · rw [childrenOf_of_node hn', childrenOf_of_node hn]
    rfl
  · rw [paintedOf_of_node hn', paintedOf_of_node hn]
    rfl

end WellFormed

theorem WellFormed.contains_of_parent? (wf : t.WellFormed) {c p : Tag}
    (hp : t.parent? c = some p) : t.contains p = true := by
  cases hc : t.handle? c with
  | none => cases (shows_of_handle?_eq_none hc).2.1.symm.trans hp
  | some k =>
    rw [wf.parent?_eq hc, Option.map_eq_some_iff] at hp
    obtain ⟨q, hq, rfl⟩ := hp
    exact exists_handle_iff.2 ⟨q, wf.handle?_tagOf (wf.parent_mem_nodes hq)⟩

/-- No view lies below one that is not there. -/
theorem WellFormed.not_within_of_not_contains (wf : t.WellFormed) (htag : t.contains tag = false)
    (hx : t.contains x = true) : ¬ t.Within tag x := by
  intro hw
  rcases Relation.ReflTransGen.cases_head hw with rfl | ⟨c, hc, -⟩
  · cases htag.symm.trans hx
  · cases htag.symm.trans (wf.contains_of_parent? hc)

theorem remove_of_not_contains (htag : t.contains tag = false) : t.remove tag = (0, t) := by
  rw [Tree.remove, handle?_eq_none_iff.2 htag]

namespace WellFormed

variable (wf : t.WellFormed) (tag : Tag)

include wf

/-- What is left is what is not in the subtree, whether there is a view to remove or not. -/
theorem contains_remove (x : Tag) :
    (t.remove tag).2.contains x = true ↔ t.contains x = true ∧ ¬ t.Within tag x := by
  cases hh : t.handle? tag with
  | none =>
    have htag := handle?_eq_none_iff.1 hh
    rw [remove_of_not_contains htag]
    exact ⟨fun hx => ⟨hx, wf.not_within_of_not_contains htag hx⟩, And.left⟩
  | some h => exact wf.contains_remove_iff hh

theorem remove_fst :
    ((t.remove tag).1 : ℕ∞) = {x | t.contains x = true ∧ t.Within tag x}.encard := by
  cases hh : t.handle? tag with
  | none =>
    have htag := handle?_eq_none_iff.1 hh
    have hempty : {x | t.contains x = true ∧ t.Within tag x} = ∅ :=
      Set.eq_empty_of_forall_notMem fun x hx => wf.not_within_of_not_contains htag hx.1 hx.2
    rw [remove_of_not_contains htag, hempty, Set.encard_empty]
    rfl
  | some h => exact wf.remove_fst_eq_encard hh

/-- A view is removed once. -/
theorem remove_remove : (t.remove tag).2.remove tag = (0, (t.remove tag).2) := by
  refine remove_of_not_contains (Bool.not_eq_true _ ▸ fun htag => ?_)
  exact ((wf.contains_remove tag tag).1 htag).2 .refl

end WellFormed

/-- A removal destroys the views of the subtree and no other, and counts them. Of the views that
are left the old parent of the subtree loses it among its children, and nothing else is changed.
Where there is no such view, as after the removal, nothing is done. -/
theorem Reachable.remove_destroys_subtree [Scalar α] (ht : t.Reachable) (tag : Tag) :
    let t' := (t.remove tag).2
    (∀ x, t'.contains x = true ↔ t.contains x = true ∧ ¬ t.Within tag x) ∧
    ((t.remove tag).1 : ℕ∞) = {x | t.contains x = true ∧ t.Within tag x}.encard ∧
    (t.contains tag = false → t.remove tag = (0, t)) ∧
    t'.remove tag = (0, t') ∧
    (∀ p, t.parent? tag = some p → t'.contains p = true ∧
      t'.children p = (t.children p).filter (· ≠ tag) ∧
      t'.paintedChildren p = (t.paintedChildren p).filter (· ≠ tag)) ∧
    ∀ x, t'.contains x = true → t'.view? x = t.view? x ∧ t'.parent? x = t.parent? x ∧
      (t.parent? tag ≠ some x →
        t'.children x = t.children x ∧ t'.paintedChildren x = t.paintedChildren x) := by
  intro t'
  have wf := ht.wellFormed
  refine ⟨wf.contains_remove tag, wf.remove_fst tag, remove_of_not_contains, wf.remove_remove tag,
    fun p hp => ?_, fun x hx => ?_⟩
  · cases hh : t.handle? tag with
    | none => cases (shows_of_handle?_eq_none hh).2.1.symm.trans hp
    | some h =>
      have hleft : t'.contains p = true := (wf.contains_remove_iff hh).2
        ⟨wf.contains_of_parent? hp, fun hw => wf.parent?_ne_of_within hh hw hp⟩
      exact ⟨hleft, (wf.shows_remove hh hleft).2.2⟩
  · cases hh : t.handle? tag with
    | none =>
      have hsame : t' = t :=
        congrArg Prod.snd (remove_of_not_contains (handle?_eq_none_iff.1 hh))
      rw [hsame]
      exact ⟨rfl, rfl, fun _ => ⟨rfl, rfl⟩⟩
    | some h =>
      obtain ⟨hview, hparent, hchildren, hpainted⟩ := wf.shows_remove hh hx
      refine ⟨hview, hparent, fun hne => ?_⟩
      obtain ⟨hself, hselfPainted⟩ := wf.filter_children_eq_self hne
      exact ⟨hchildren.trans hself, hpainted.trans hselfPainted⟩

/-- The flat view is destroyed, and what is in it. -/
theorem flattened_remove_destroys_subtree : flattened.Reachable ∧
    ((flattened.remove ⟨3⟩).1 : ℕ∞) =
      {x | flattened.contains x = true ∧ flattened.Within ⟨3⟩ x}.encard ∧
    (flattened.remove ⟨3⟩).2.contains ⟨4⟩ = false ∧
    (flattened.remove ⟨3⟩).2.children ⟨1⟩ = [⟨2⟩] := by
  have hreach : flattened.Reachable := ((Reachable.empty.foldl _).foldl _).foldl _
  have hroot : flattened.contains ⟨3⟩ = true := by cbv
  have hpath : (flattened.path? ⟨3⟩ ⟨4⟩).isSome = true := by cbv
  have hparent : flattened.parent? ⟨3⟩ = some ⟨1⟩ := by cbv
  have hchildren : flattened.children ⟨1⟩ = [⟨2⟩, ⟨3⟩] := by cbv
  have hbelow : flattened.Within ⟨3⟩ ⟨4⟩ := (hreach.wellFormed.within_iff_path? hroot).2 hpath
  obtain ⟨hleft, hcount, -, -, hold, -⟩ := hreach.remove_destroys_subtree ⟨3⟩
  refine ⟨hreach, hcount, ?_, ?_⟩
  · rw [← Bool.not_eq_true, hleft]
    exact fun h => h.2 hbelow
  · rw [(hold ⟨1⟩ hparent).2.1, hchildren]
    decide

end ViewHost.Tree
