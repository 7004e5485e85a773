import ViewHost.Proofs.Tree.Reachable

/-!
# Paint order

A view is painted before its children, and the children one after the other in
ascending order of z, those of equal z in layout order. What is painted later
covers what was painted before. The order is derived here from children and z
alone; the paint orders that a tree keeps are another way to the same sequence.
-/

namespace ViewHost.Tree

variable {α : Type} {t : Tree α} {h c p : Handle} {n : Node α} {tag w : Tag} {depth depth' : Nat}

/-- The children of a view, bottom first. -/
def layers (t : Tree α) (tag : Tag) : List Tag :=
  (t.children tag).mergeSort fun a b => t.zAt a ≤ t.zAt b

/-- The views at and below a view on so many levels, in paint order. -/
def paintedFrom (t : Tree α) : Nat → Tag → List Tag
  | 0, _ => []
  | depth + 1, tag => tag :: (t.layers tag).flatMap (t.paintedFrom depth)

/-- The views at and below a view, in paint order. No subtree has more levels
than there are views. -/
def paintSequence (t : Tree α) (tag : Tag) : List Tag := t.paintedFrom t.size tag

theorem Fits.child (hf : t.Fits (depth + 1) h) (hc : c ∈ t.childrenOf h) : t.Fits depth c := by
  obtain ⟨n, hn, fits⟩ := hf
  exact fits c (childrenOf_of_node hn ▸ hc)

namespace WellFormed

theorem layers_eq (wf : t.WellFormed) (hh : t.handle? tag = some h) :
    t.layers tag = (t.paintedOf h).map t.tagOf := by
  rw [← wf.paintedChildren_eq hh]
  exact (StablySorted.mergeSort _ _).unique (wf.stablySorted_paintedChildren tag)

theorem paintedFrom_succ (wf : t.WellFormed) (hh : t.handle? tag = some h) (depth : Nat) :
    t.paintedFrom (depth + 1) tag =
      tag :: (t.paintedOf h).flatMap fun c => t.paintedFrom depth (t.tagOf c) := by
  rw [paintedFrom, wf.layers_eq hh, List.flatMap_map]

theorem isParent_of_mem_paintedOf (wf : t.WellFormed) (hc : c ∈ t.paintedOf h) : t.IsParent h c :=
  wf.mem_childrenOf_iff.1 (wf.mem_paintedOf_iff.1 hc)

theorem handle?_tagOf_of_mem_paintedOf (wf : t.WellFormed) (hc : c ∈ t.paintedOf h) :
    t.handle? (t.tagOf c) = some c :=
  wf.handle?_tagOf (mem_nodes_of_isParent (wf.isParent_of_mem_paintedOf hc))

/-- More levels than there are add nothing. -/
theorem paintedFrom_eq_of_fits (wf : t.WellFormed) (hh : t.handle? tag = some h)
    (hf : t.Fits depth h) (hf' : t.Fits depth' h) :
    t.paintedFrom depth tag = t.paintedFrom depth' tag := by
  induction depth generalizing depth' h tag with
  | zero => exact absurd hf id
  | succ depth ih =>
    cases depth' with
    | zero => exact absurd hf' id
    | succ depth' =>
      rw [wf.paintedFrom_succ hh, wf.paintedFrom_succ hh]
      refine congrArg (tag :: ·) (List.flatMap_congr fun c hc => ?_)
      have hchild := wf.mem_paintedOf_iff.1 hc
      exact ih (wf.handle?_tagOf_of_mem_paintedOf hc) (hf.child hchild) (hf'.child hchild)

/-- What is painted from a view lies at or below it. -/
theorem isAncestor_of_mem_paintedFrom (wf : t.WellFormed) (hh : t.handle? tag = some h)
    (hw : w ∈ t.paintedFrom depth tag) : ∃ k, t.handle? w = some k ∧ t.IsAncestor h k := by
  induction depth generalizing h tag with
  | zero => exact absurd hw List.not_mem_nil
  | succ depth ih =>
    rw [wf.paintedFrom_succ hh] at hw
    rcases List.mem_cons.1 hw with rfl | hw
    · exact ⟨h, hh, .refl⟩
    · obtain ⟨c, hc, hw⟩ := List.mem_flatMap.1 hw
      obtain ⟨k, hk, hck⟩ := ih (wf.handle?_tagOf_of_mem_paintedOf hc) hw
      exact ⟨k, hk, hck.head (wf.isParent_of_mem_paintedOf hc)⟩

theorem paintSequence_eq (wf : t.WellFormed) (hh : t.handle? tag = some h) :
    t.paintSequence tag = tag :: (t.layers tag).flatMap t.paintSequence := by
  have hf := wf.fits_size (wf.handle?_eq_some_iff.1 hh).1
  obtain ⟨depth, hsize⟩ : ∃ depth, t.size = depth + 1 := by
    apply Nat.exists_eq_succ_of_ne_zero
    intro h0
    rwa [h0] at hf
  have hlevels : t.paintSequence tag = t.paintedFrom (depth + 1) tag := by
    rw [paintSequence, hsize]
  rw [hlevels, wf.paintedFrom_succ hh, wf.layers_eq hh, List.flatMap_map]
  refine congrArg (tag :: ·) (List.flatMap_congr fun c hc => ?_)
  have hchild := wf.mem_paintedOf_iff.1 hc
  rw [hsize] at hf
  exact wf.paintedFrom_eq_of_fits (wf.handle?_tagOf_of_mem_paintedOf hc) (hf.child hchild)
    (wf.fits_size (wf.mem_nodes_of_mem_childrenOf hchild))

end WellFormed

/-- In a reachable tree, a view is painted before its children, and the children
with all below them one after the other. -/
theorem Reachable.paintSequence_eq [Scalar α] (ht : t.Reachable) (hc : t.contains tag) :
    t.paintSequence tag = tag :: (t.layers tag).flatMap t.paintSequence := by
  rw [contains, Std.ExtTreeMap.contains_eq_isSome_getElem?] at hc
  obtain ⟨h, hh⟩ := Option.isSome_iff_exists.1 hc
  exact ht.wellFormed.paintSequence_eq hh

end ViewHost.Tree
