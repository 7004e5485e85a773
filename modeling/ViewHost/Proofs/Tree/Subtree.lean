import ViewHost.Proofs.Tree.Walks

/-!
# What is seen from inside a subtree

Hit tests, paths, maps and boxes that are taken with respect to a root look at the views at and
below it, and of the root itself they look at neither the place nor the parent. Two trees that
agree so far give the same answers, whatever else there is in either and however large it is.
-/

namespace ViewHost

variable {α : Type}

/-- What a node is to those below it: all that a query from there may look at. -/
structure Node.AlikeInside (n n' : Node α) : Prop where
  tag : n'.view.tag = n.view.tag
  size : n'.view.frame.size = n.view.frame.size
  clips : n'.view.clips = n.view.clips
  hidden : n'.view.hidden = n.view.hidden
  pointerEvents : n'.view.pointerEvents = n.view.pointerEvents
  hitSlop : n'.view.hitSlop = n.view.hitSlop
  children : n'.children = n.children
  paintOrder : n'.paintOrder = n.paintOrder

namespace Node.AlikeInside

variable {n n' n'' : Node α}

theorem refl (n : Node α) : n.AlikeInside n := ⟨rfl, rfl, rfl, rfl, rfl, rfl, rfl, rfl⟩

theorem trans (h : n.AlikeInside n') (h' : n'.AlikeInside n'') : n.AlikeInside n'' where
  tag := h'.tag.trans h.tag
  size := h'.size.trans h.size
  clips := h'.clips.trans h.clips
  hidden := h'.hidden.trans h.hidden
  pointerEvents := h'.pointerEvents.trans h.pointerEvents
  hitSlop := h'.hitSlop.trans h.hitSlop
  children := h'.children.trans h.children
  paintOrder := h'.paintOrder.trans h.paintOrder

variable [Scalar α]

theorem bounds (h : n.AlikeInside n') : n'.view.bounds = n.view.bounds := by
  rw [View.bounds, View.bounds, h.size]

theorem bars_eq (h : n.AlikeInside n') (p : Vec2 α) :
    Tree.bars n'.view p = Tree.bars n.view p := by
  rw [Tree.bars, Tree.bars, h.hidden, h.pointerEvents, h.clips, h.bounds]

theorem hits_eq (h : n.AlikeInside n') (p : Vec2 α) :
    Tree.hits n'.view p = Tree.hits n.view p := by
  rw [Tree.hits, Tree.hits, View.hitBounds, View.hitBounds, h.pointerEvents, h.bounds, h.hitSlop]

end Node.AlikeInside

namespace Tree

variable {t t' t'' : Tree α} {r h k c : Handle} {n n' : Node α} {root tag : Tag}
variable {depth depth' : Nat}

/-- The view `tag` is the view `root` or lies below it. -/
def Within (t : Tree α) (root tag : Tag) : Prop :=
  Relation.ReflTransGen (fun above below => t.parent? below = some above) root tag

theorem WellFormed.within_iff (wf : t.WellFormed) (hr : t.handle? root = some r)
    (hh : t.handle? tag = some h) : t.Within root tag ↔ t.IsAncestor r h :=
  (wf.isAncestor_iff hr hh).symm

theorem WellFormed.exists_handle_of_within (wf : t.WellFormed) (hr : t.handle? root = some r)
    (hw : t.Within root tag) : ∃ h, t.handle? tag = some h ∧ t.IsAncestor r h := by
  induction hw with
  | refl => exact ⟨r, hr, .refl⟩
  | tail _ hparent ih =>
    obtain ⟨p, hp, hanc⟩ := ih
    obtain ⟨c, hc, hpc⟩ := wf.isParent_of_parent? hp hparent
    exact ⟨c, hc, hanc.tail hpc⟩

/-- Whether a view lies in a subtree can be told by asking for the path. -/
theorem WellFormed.within_iff_path? (wf : t.WellFormed) (hr : t.contains root = true) :
    t.Within root tag ↔ (t.path? root tag).isSome = true := by
  rw [Option.isSome_iff_exists, wf.exists_path?_iff, and_iff_right hr]
  refine ⟨fun hw => ⟨?_, hw⟩, fun hw => hw.2⟩
  obtain ⟨r, hr⟩ := exists_handle_iff.1 hr
  obtain ⟨h, hh, -⟩ := wf.exists_handle_of_within hr hw
  exact exists_handle_iff.2 ⟨h, hh⟩

/-- The nodes below `r` are in `t'` as they are in `t`, and `r` is so to those below it. -/
structure AgreeBelow (r : Handle) (t t' : Tree α) : Prop where
  top : ∃ n n', t.nodes[r]? = some n ∧ t'.nodes[r]? = some n' ∧ n.AlikeInside n'
  below : ∀ k, t.IsAncestor r k → k ≠ r → t'.nodes[k]? = t.nodes[k]?

namespace AgreeBelow

variable (agree : AgreeBelow r t t')

include agree

theorem exists_node (hk : t.IsAncestor r k) (hn : t.nodes[k]? = some n) :
    ∃ n', t'.nodes[k]? = some n' ∧ n.AlikeInside n' := by
  by_cases hr : k = r
  · subst hr
    obtain ⟨m, n', hm, hn', halike⟩ := agree.top
    cases hm.symm.trans hn
    exact ⟨n', hn', halike⟩
  · exact ⟨n, (agree.below k hk hr).trans hn, .refl n⟩

theorem isAncestor (hk : t.IsAncestor r k) : t'.IsAncestor r k := by
  induction hk with
  | refl => exact .refl
  | @tail p c hp hpc ih =>
    by_cases hc : c = r
    · exact hc ▸ .refl
    · refine ih.tail ?_
      rw [IsParent, parentOf?, agree.below c (hp.tail hpc) hc]
      exact hpc

/-- Nothing comes into the subtree either. -/
theorem isAncestor_iff (wf : t.WellFormed) (wf' : t'.WellFormed) :
    t'.IsAncestor r k ↔ t.IsAncestor r k := by
  refine ⟨fun hk => ?_, agree.isAncestor⟩
  obtain ⟨top, -, htop, -⟩ := agree.top
  induction hk with
  | refl => exact .refl
  | @tail p c _ hpc ih =>
    obtain ⟨n, hn⟩ := mem_nodes_iff.1 (mem_nodes_of_isAncestor (mem_nodes_iff.2 ⟨top, htop⟩) ih)
    obtain ⟨n', hn', halike⟩ := agree.exists_node ih hn
    have hc := wf'.mem_childrenOf_iff.2 hpc
    rw [childrenOf_of_node hn', halike.children, ← childrenOf_of_node hn] at hc
    exact ih.tail (wf.mem_childrenOf_iff.1 hc)

theorem trans (agree' : AgreeBelow r t' t'') : AgreeBelow r t t'' := by
  obtain ⟨n, n', hn, hn', halike⟩ := agree.top
  obtain ⟨m, n'', hm, hn'', halike'⟩ := agree'.top
  cases hn'.symm.trans hm
  refine ⟨⟨n, n'', hn, hn'', halike.trans halike'⟩, fun k hk hr => ?_⟩
  exact (agree'.below k (agree.isAncestor hk) hr).trans (agree.below k hk hr)

theorem tagOf_eq (hk : t.IsAncestor r k) (hlive : k ∈ t.nodes) : t'.tagOf k = t.tagOf k := by
  obtain ⟨n, hn⟩ := mem_nodes_iff.1 hlive
  obtain ⟨n', hn', halike⟩ := agree.exists_node hk hn
  rw [tagOf_of_node hn, tagOf_of_node hn', halike.tag]

/-- The views of the subtree are found under their tags. -/
theorem handle?_eq (wf : t.WellFormed) (wf' : t'.WellFormed) (hk : t.IsAncestor r k)
    (hh : t.handle? tag = some k) : t'.handle? tag = some k := by
  obtain ⟨hlive, htag⟩ := wf.handle?_eq_some_iff.1 hh
  obtain ⟨n, hn⟩ := mem_nodes_iff.1 hlive
  obtain ⟨n', hn', -⟩ := agree.exists_node hk hn
  exact wf'.handle?_eq_some_iff.2
    ⟨mem_nodes_iff.2 ⟨n', hn'⟩, (agree.tagOf_eq hk hlive).trans htag⟩

/-- The subtree has the same views. -/
theorem within_iff (wf : t.WellFormed) (wf' : t'.WellFormed) (hr : t.handle? root = some r) :
    t'.Within root tag ↔ t.Within root tag := by
  have hr' := agree.handle?_eq wf wf' .refl hr
  constructor
  · intro hw
    obtain ⟨h, hh, hanc'⟩ := wf'.exists_handle_of_within hr' hw
    have hanc := (agree.isAncestor_iff wf wf').1 hanc'
    have hlive := mem_nodes_of_isAncestor (wf.mem_nodes_of_handle? hr) hanc
    refine (wf.within_iff hr (wf.handle?_eq_some_iff.2 ⟨hlive, ?_⟩)).2 hanc
    rw [← agree.tagOf_eq hanc hlive, (wf'.handle?_eq_some_iff.1 hh).2]
  · intro hw
    obtain ⟨h, hh, hanc⟩ := wf.exists_handle_of_within hr hw
    exact (wf'.within_iff hr' (agree.handle?_eq wf wf' hanc hh)).2 (agree.isAncestor hanc)

/-- A way up to `r` is the same way. -/
theorem climbs {ns : List (Node α)} (hway : t.Climbs r h ns true) : t'.Climbs r h ns true := by
  generalize harrived : true = arrived at hway
  induction hway with
  | here => exact .here
  | top => cases harrived
  | @step h p n ns _ hs hn hp hrest ih =>
    subst harrived
    have hanc := (Climbs.step hs hn hp hrest).isAncestor
    exact .step hs ((agree.below h hanc hs).trans hn) hp (ih rfl)

theorem ascent_eq (wf : t.WellFormed) (wf' : t'.WellFormed) (hr : t.handle? root = some r)
    (hh : t.handle? tag = some h) (hanc : t.IsAncestor r h) :
    t'.ascent root tag = t.ascent root tag := by
  have hr' := agree.handle?_eq wf wf' .refl hr
  have hh' := agree.handle?_eq wf wf' hanc hh
  obtain ⟨⟨passed, arrived⟩, hway, hclimbs, harrived⟩ := wf.ascent_eq_ok hr hh
  obtain ⟨⟨passed', arrived'⟩, hway', hclimbs', -⟩ := wf'.ascent_eq_ok hr' hh'
  cases (harrived.2 hanc : arrived = true)
  obtain ⟨hpassed, harrived'⟩ := (agree.climbs hclimbs).unique hclimbs'
  rw [hway, hway']
  exact congrArg Except.ok (congr (congrArg Ascent.mk hpassed.symm) harrived'.symm)

theorem path?_eq (wf : t.WellFormed) (wf' : t'.WellFormed) (hr : t.handle? root = some r)
    (hh : t.handle? tag = some h) (hanc : t.IsAncestor r h) :
    t'.path? root tag = t.path? root tag := by
  rw [path?, path?, agree.ascent_eq wf wf' hr hh hanc]

section Queries

variable [Scalar α] (wf : t.WellFormed)

include wf

theorem carried_eq (hk : t.IsAncestor r k) (hc : t.IsParent k c) (p : Vec2 α) :
    t'.carried c p = t.carried c p := by
  have hne : c ≠ r := by
    rintro rfl
    exact wf.not_isAncestor_of_isParent hc hk
  rw [carried, carried, agree.below c (hk.tail hc) hne]

/-- The same views are hit in the same order. -/
theorem map_allHits_eq (hk : t.IsAncestor r k) (hf : t.Fits depth k) (hf' : t'.Fits depth' k)
    (p : Vec2 α) :
    (t'.allHits depth' k p).map t'.tagOf = (t.allHits depth k p).map t.tagOf := by
  induction depth generalizing depth' k p with
  | zero => exact absurd hf id
  | succ depth ih =>
    cases depth' with
    | zero => exact absurd hf' id
    | succ depth' =>
      obtain ⟨n, hn, -⟩ := id hf
      obtain ⟨n', hn', halike⟩ := agree.exists_node hk hn
      have htag := agree.tagOf_eq hk (mem_nodes_iff.2 ⟨n, hn⟩)
      rw [allHits, allHits, hn, hn']
      simp only [halike.bars_eq, halike.hits_eq, halike.pointerEvents, halike.paintOrder]
      by_cases hbars : bars n.view p
      · rw [if_pos hbars, if_pos hbars]
        rfl
      rw [if_neg hbars, if_neg hbars, List.map_append, List.map_append]
      congr 1
      · by_cases hhits : hits n.view p <;> simp [hhits, htag]
      by_cases hallows : n.view.pointerEvents.allowsChildren
      · rw [if_pos hallows, if_pos hallows, List.map_flatMap, List.map_flatMap]
        refine List.flatMap_congr fun c hc => ?_
        have hpainted : c ∈ t.paintedOf k := paintedOf_of_node hn ▸ hc
        have hchild := wf.mem_paintedOf_iff.1 hpainted
        have hparent := wf.isParent_of_mem_paintedOf hpainted
        have hchild' : c ∈ t'.childrenOf k := by
          rwa [childrenOf_of_node hn', halike.children, ← childrenOf_of_node hn]
        rw [agree.carried_eq wf hk hparent]
        cases t.carried c p with
        | none => rfl
        | some q => exact ih (hk.tail hparent) (hf.child hchild) (hf'.child hchild') q
      · rw [if_neg hallows, if_neg hallows]
        rfl

variable (wf' : t'.WellFormed) (hr : t.handle? root = some r)

include wf' hr

theorem hitTest_eq (p : Vec2 α) : t'.hitTest p root = t.hitTest p root := by
  have hr' := agree.handle?_eq wf wf' .refl hr
  have hf := wf.fits_size (wf.mem_nodes_of_handle? hr)
  have hf' := wf'.fits_size (wf'.mem_nodes_of_handle? hr')
  rw [wf.hitTest_eq hr, wf'.hitTest_eq hr', agree.map_allHits_eq wf .refl hf hf']

variable (hh : t.handle? tag = some h) (hanc : t.IsAncestor r h)

include hh hanc

theorem rootToLocal_eq : t'.rootToLocal root tag = t.rootToLocal root tag := by
  rw [rootToLocal, rootToLocal, agree.ascent_eq wf wf' hr hh hanc]

theorem globalFrame_eq : t'.globalFrame tag root = t.globalFrame tag root := by
  obtain ⟨n, hn, -⟩ := wf.exists_node hh
  obtain ⟨n', hn', halike⟩ := agree.exists_node hanc hn
  obtain ⟨way, hway, -⟩ := wf.ascent_eq_ok hr hh
  have hway' := (agree.ascent_eq wf wf' hr hh hanc).trans hway
  rw [Tree.globalFrame_eq hway (view?_eq hh hn),
    Tree.globalFrame_eq hway' (view?_eq (agree.handle?_eq wf wf' hanc hh) hn'), halike.bounds]

end Queries

end AgreeBelow

end Tree

end ViewHost
