import ViewHost.Proofs.Tree.Subtree

/-!
# Un-clipping

A view that clips bars all points outside its bounds from itself and from what lies below it. When
it stops, nothing else about the tree changes: views are painted in the same order and points are
carried the same way. So a view may be hit now that might not be hit before only if the way down
to it leads over the one that clipped, at a point outside the bounds. A hit test finds the last
view that may be hit; if it finds another than before, then one of these.
-/

namespace ViewHost

variable {α : Type}

namespace View

/-- The view, which does not clip if its tag is `a`. -/
def unclipped (a : Tag) (v : View α) : View α := { v with clips := v.clips && v.tag ≠ a }

variable {a : Tag} {v : View α}

theorem unclipped_of_eq (htag : v.tag = a) : v.unclipped a = { v with clips := false } := by
  simp [unclipped, htag]

theorem unclipped_of_ne (htag : v.tag ≠ a) : v.unclipped a = v := by
  simp [unclipped, htag]

theorem clips_unclipped : (v.unclipped a).clips = true ↔ v.clips = true ∧ v.tag ≠ a := by
  simp [unclipped]

end View

namespace Tree

variable {t t' : Tree α} {f : View α → View α} {v : View α} {a root tag w x : Tag}

theorem exists_node_of_view? (hv : t.view? tag = some v) :
    ∃ h n, t.handle? tag = some h ∧ t.nodes[h]? = some n ∧ n.view = v := by
  cases hh : t.handle? tag with
  | none => simp [view?, node?, hh] at hv
  | some h =>
    rw [view?, node?_eq hh, Option.map_eq_some_iff] at hv
    obtain ⟨n, hn, hv⟩ := hv
    exact ⟨h, n, rfl, hn, hv⟩

theorem WellFormed.tag_of_view? (wf : t.WellFormed) (hv : t.view? tag = some v) : v.tag = tag := by
  obtain ⟨h, n, hh, hn, rfl⟩ := exists_node_of_view? hv
  rw [← tagOf_of_node hn, (wf.handle?_eq_some_iff.1 hh).2]

/-! ## Other settings -/

/-- Views are linked and painted in `t'` as they are in `t`, and are to look as `f` has it. -/
structure Restyled (f : View α → View α) (t t' : Tree α) : Prop where
  view?_eq : ∀ x, t'.view? x = (t.view? x).map f
  parent?_eq : ∀ x, t'.parent? x = t.parent? x
  paintSequence_eq : ∀ x, t'.paintSequence x = t.paintSequence x

/-- The order in which views are painted is known from their children and their z. -/
theorem paintedFrom_congr (hchildren : t'.children = t.children) (hz : t'.zAt = t.zAt) :
    t'.paintedFrom = t.paintedFrom := by
  funext depth x
  induction depth generalizing x with
  | zero => rfl
  | succ depth ih =>
    rw [paintedFrom, paintedFrom, layers, layers, hchildren, hz]
    exact congrArg (x :: ·) (List.flatMap_congr fun c _ => ih c)

theorem Edited.restyled (e : Edited (fun _ n => { n with view := f n.view }) t t')
    (wf : t.WellFormed) (wf' : t'.WellFormed) (htag : ∀ v, (f v).tag = v.tag)
    (hz : ∀ v, (f v).z = v.z) : Restyled f t t' := by
  have hhandle : t'.handle? = t.handle? := funext fun x => by rw [handle?, handle?, e.handles]
  have htagOf : t'.tagOf = t.tagOf := by
    funext k
    rw [tagOf, tagOf, e.tagOf?_eq fun _ n => htag n.view]
  have hparentOf : t'.parentOf? = t.parentOf? := funext e.parentOf?_eq
  have hchildrenOf : t'.childrenOf = t.childrenOf := funext e.childrenOf_eq
  have hview : ∀ x, t'.view? x = (t.view? x).map f := by
    intro x
    rw [view?, view?, node?, node?, hhandle]
    cases t.handle? x with
    | none => rfl
    | some k => simp [e.nodes, Function.comp_def]
  have hchildren : t'.children = t.children := by
    funext x
    cases hh : t.handle? x with
    | none => rw [children, children, node?, node?, hhandle, hh]; rfl
    | some k => rw [wf.children_eq hh, wf'.children_eq (hhandle ▸ hh), hchildrenOf, htagOf]
  have hzAt : t'.zAt = t.zAt := by
    funext x
    simp [zAt, hview, Function.comp_def, hz]
  have hsize : t'.size = t.size := by
    rw [← card_live, ← card_live]
    congr 1
    ext k
    rw [mem_live_iff, mem_live_iff, e.mem_nodes_iff]
  refine ⟨hview, fun x => ?_, fun x => ?_⟩
  · cases hh : t.handle? x with
    | none => rw [parent?, parent?, node?, node?, hhandle, hh]; rfl
    | some k => rw [wf.parent?_eq hh, wf'.parent?_eq (hhandle ▸ hh), hparentOf, htagOf]
  · rw [paintSequence, paintSequence, hsize, paintedFrom_congr hchildren hzAt]

theorem WellFormed.restyled_setClips (wf : t.WellFormed) (a : Tag) :
    Restyled (View.unclipped a) t (t.setClips a false).2 := by
  have wf' : (t.setClips a false).2.WellFormed := wf.update a (fun _ => rfl) fun _ => rfl
  refine Edited.restyled ?_ wf wf' (fun _ => rfl) fun _ => rfl
  -- no other node bears the tag
  have hkeep : ∀ {k}, t.handle? a ≠ some k →
      t.nodes[k]?.map (fun m => { m with view := m.view.unclipped a }) = t.nodes[k]? := by
    intro k hk
    cases hm : t.nodes[k]? with
    | none => rfl
    | some m =>
      rw [Option.map_some, View.unclipped_of_ne]
      intro htag
      exact hk (wf.handle?_eq_some_iff.2
        ⟨mem_nodes_iff.2 ⟨m, hm⟩, (tagOf_of_node hm).trans htag⟩)
  rw [setClips, Tree.update]
  split
  · next h hh =>
    obtain ⟨n, hn, htag⟩ := wf.exists_node hh
    rw [node_eq_ok hn]
    refine ⟨rfl, rfl, fun k => (nodes_put t h k _).trans ?_⟩
    by_cases hk : h = k
    · subst hk
      rw [if_pos rfl, hn, Option.map_some, View.unclipped_of_eq htag]
    · rw [if_neg hk, hkeep (by simp [hh, hk])]
  · next hh => exact ⟨rfl, rfl, fun k => (hkeep (by simp [hh])).symm⟩

/-! ## Ways down -/

section Trails

variable [Scalar α] {p p' q q' : Vec2 α} {u v' : View α} {above above' : List (View α × Vec2 α)}

theorem Trail.within (htrail : t.Trail root p above tag v q) : t.Within root tag := by
  induction htrail with
  | here => exact .refl
  | down _ hc _ _ _ ih => exact ih.head hc

/-- No way leads from a child back up. -/
theorem WellFormed.not_trail_of_parent? (wf : t.WellFormed) (hx : t.parent? x = some root) :
    ¬ t.Trail x p above root v q := by
  intro htrail
  obtain ⟨h, n, hh, -⟩ := exists_node_of_view? htrail.view?_eq
  obtain ⟨c, hc, hparent⟩ := wf.isParent_of_parent? hh hx
  obtain ⟨k, hk, hanc⟩ := wf.isAncestor_of_trail hc htrail
  cases hh.symm.trans hk
  exact wf.not_isAncestor_of_isParent hparent hanc

/-- Ways down to one view leave another one over the same child. -/
theorem WellFormed.eq_of_trail (wf : t.WellFormed) {c c' : Tag} (hu : t.view? root = some u)
    (hc : t.parent? c = some root) (hc' : t.parent? c' = some root)
    (htrail : t.Trail c p above tag v q) (htrail' : t.Trail c' p' above' tag v' q') : c = c' := by
  obtain ⟨h, n, hh, -⟩ := exists_node_of_view? hu
  obtain ⟨k, hk, hparent⟩ := wf.isParent_of_parent? hh hc
  obtain ⟨k', hk', hparent'⟩ := wf.isParent_of_parent? hh hc'
  obtain ⟨l, hl, hanc⟩ := wf.isAncestor_of_trail hk htrail
  obtain ⟨l', hl', hanc'⟩ := wf.isAncestor_of_trail hk' htrail'
  cases hl.symm.trans hl'
  cases wf.eq_of_isAncestor hparent hparent' hanc hanc'
  rw [← (wf.handle?_eq_some_iff.1 hk).2, ← (wf.handle?_eq_some_iff.1 hk').2]

/-- There is one way at most in which a point is carried to a view. -/
theorem WellFormed.trail_unique (wf : t.WellFormed) (htrail : t.Trail root p above tag v q)
    (htrail' : t.Trail root p above' tag v' q') : v = v' ∧ q = q' := by
  induction htrail generalizing above' with
  | here hv =>
    cases htrail' with
    | here hv' =>
      cases hv.symm.trans hv'
      exact ⟨rfl, rfl⟩
    | down _ hc' _ _ rest' => exact absurd rest' (wf.not_trail_of_parent? hc')
  | down hu hc hw hm rest ih =>
    cases htrail' with
    | here => exact absurd rest (wf.not_trail_of_parent? hc)
    | down _ hc' hw' hm' rest' =>
      cases wf.eq_of_trail hu hc hc' rest rest'
      cases hw.symm.trans hw'
      cases hm.symm.trans hm'
      exact ih rest'

/-- The way down to a view leads to every view that it passes. -/
theorem WellFormed.exists_trail_of_mem (wf : t.WellFormed)
    (htrail : t.Trail root p above w v q) {s : View α × Vec2 α} (hs : s ∈ (v, q) :: above) :
    ∃ above', t.Trail root p above' s.1.tag s.1 s.2 ∧ t.Within s.1.tag w := by
  induction htrail with
  | here hv =>
    cases List.mem_singleton.1 hs
    rw [wf.tag_of_view? hv]
    exact ⟨[], .here hv, .refl⟩
  | @down root c w p q u m v f above hu hc hm hf rest ih =>
    rw [List.mem_cons, List.mem_cons, or_left_comm, ← List.mem_cons] at hs
    rcases hs with rfl | hs
    · rw [wf.tag_of_view? hu]
      exact ⟨[], .here hu, rest.within.head hc⟩
    · obtain ⟨above', hpassed, hbelow⟩ := ih hs
      exact ⟨_, .down hu hc hm hf hpassed, hbelow⟩

variable (e : Restyled f t t') (hinward : ∀ v, (f v).localFromParent = v.localFromParent)

include e hinward

theorem Restyled.trail (htrail : t.Trail root p above w v q) :
    t'.Trail root p (above.map fun s => (f s.1, s.2)) w (f v) q := by
  induction htrail with
  | here hv => exact .here (by rw [e.view?_eq, hv, Option.map_some])
  | down hu hc hw hm _ ih =>
    exact .down (by rw [e.view?_eq, hu, Option.map_some]) (by rw [e.parent?_eq, hc])
      (by rw [e.view?_eq, hw, Option.map_some]) (by rw [hinward, hm]) ih

theorem Restyled.exists_trail (htrail : t'.Trail root p above' w v' q) :
    ∃ above v, t.Trail root p above w v q ∧ f v = v' ∧
      above.map (fun s => (f s.1, s.2)) = above' := by
  induction htrail with
  | here hv =>
    rw [e.view?_eq, Option.map_eq_some_iff] at hv
    obtain ⟨v, hv, rfl⟩ := hv
    exact ⟨[], v, .here hv, rfl, rfl⟩
  | down hu hc hw hm _ ih =>
    rw [e.view?_eq, Option.map_eq_some_iff] at hu hw
    obtain ⟨u, hu, rfl⟩ := hu
    obtain ⟨w, hw, rfl⟩ := hw
    obtain ⟨above, v, htrail, rfl, rfl⟩ := ih
    exact ⟨_, v, .down hu (e.parent?_eq _ ▸ hc) hw (hinward w ▸ hm) htrail, rfl, rfl⟩

end Trails

/-! ## What may be hit -/

/-- If more elements pass a filter and the last that passes is another, it did not pass before. -/
theorem exists_getLast?_filter {β : Type} {P Q : β → Bool} (hPQ : ∀ x, P x = true → Q x = true)
    {xs : List β} (hne : (xs.filter Q).getLast? ≠ (xs.filter P).getLast?) :
    ∃ x, (xs.filter Q).getLast? = some x ∧ P x = false := by
  induction xs using List.reverseRecOn with
  | nil => exact absurd rfl hne
  | append_singleton xs x ih =>
    rw [List.filter_append, List.filter_append] at hne
    rw [List.filter_append]
    cases hQ : Q x with
    | false =>
      have hP : P x = false := by
        rw [← Bool.not_eq_true]
        exact fun hP => Bool.noConfusion (hQ.symm.trans (hPQ x hP))
      simp only [List.filter_singleton, hP, hQ, List.append_nil, cond_false] at hne ⊢
      exact ih hne
    | true =>
      cases hP : P x with
      | false => exact ⟨x, by simp [hQ], hP⟩
      | true => simp [hQ, hP] at hne

section Eligible

variable [Scalar α] {p : Vec2 α} (e : Restyled (View.unclipped a) t t')

include e

/-- What may be hit when `a` does not clip: its bounds are of no account. -/
theorem Restyled.eligible_iff : t'.Eligible root p w ↔
    ∃ above v q, t.Trail root p above w v q ∧
      (∀ s ∈ (v, q) :: above, s.1.hidden = false ∧ s.1.pointerEvents ≠ .none ∧
        (s.1.clips = true ∧ s.1.tag ≠ a → s.1.bounds.contains s.2 = true)) ∧
      (∀ s ∈ above, s.1.pointerEvents.allowsChildren = true) ∧
      v.pointerEvents.allowsSelf = true ∧ v.hitBounds.contains q = true := by
  have hcons := fun v q above => List.map_cons (f := fun s : View α × Vec2 α =>
    (s.1.unclipped a, s.2)) (a := (v, q)) (l := above)
  constructor
  · rintro ⟨_, _, q, htrail', hopen, hthrough, hself, hinside⟩
    obtain ⟨above, v, htrail, rfl, rfl⟩ := e.exists_trail (fun _ => rfl) htrail'
    rw [← hcons, List.forall_mem_map] at hopen
    rw [List.forall_mem_map] at hthrough
    refine ⟨above, v, q, htrail, fun s hs => ?_, hthrough, hself, hinside⟩
    obtain ⟨hidden, hevents, hclips⟩ := hopen s hs
    exact ⟨hidden, hevents, fun h => hclips (View.clips_unclipped.2 h)⟩
  · rintro ⟨above, v, q, htrail, hopen, hthrough, hself, hinside⟩
    refine ⟨_, _, q, e.trail (fun _ => rfl) htrail, ?_⟩
    rw [← hcons, List.forall_mem_map, List.forall_mem_map]
    refine ⟨fun s hs => ?_, hthrough, hself, hinside⟩
    obtain ⟨hidden, hevents, hclips⟩ := hopen s hs
    exact ⟨hidden, hevents, fun h => hclips (View.clips_unclipped.1 h)⟩

theorem Restyled.eligible (hw : t.Eligible root p w) : t'.Eligible root p w := by
  obtain ⟨above, v, q, htrail, hopen, hrest⟩ := hw
  refine e.eligible_iff.2 ⟨above, v, q, htrail, fun s hs => ?_, hrest⟩
  obtain ⟨hidden, hevents, hclips⟩ := hopen s hs
  exact ⟨hidden, hevents, fun h => hclips h.1⟩

/-- What becomes eligible lies below the view that clipped, and the point outside its bounds. -/
theorem Restyled.exists_outside (wf : t.WellFormed) (hw' : t'.Eligible root p w)
    (hw : ¬ t.Eligible root p w) : t.Within a w ∧
      ∃ above v q, t.Trail root p above a v q ∧ v.bounds.contains q = false := by
  obtain ⟨above, v, q, htrail, hopen, hrest⟩ := e.eligible_iff.1 hw'
  obtain ⟨s, hs, hclips, hout⟩ : ∃ s ∈ (v, q) :: above, s.1.clips = true ∧
      ¬ s.1.bounds.contains s.2 = true := by
    by_contra hall
    refine hw ⟨above, v, q, htrail, fun s hs => ?_, hrest⟩
    refine ⟨(hopen s hs).1, (hopen s hs).2.1, fun hclips => ?_⟩
    by_contra hout
    exact hall ⟨s, hs, hclips, hout⟩
  have htag : s.1.tag = a := by
    by_contra hne
    exact hout ((hopen s hs).2.2 ⟨hclips, hne⟩)
  subst htag
  obtain ⟨above', hpassed, hbelow⟩ := wf.exists_trail_of_mem htrail hs
  exact ⟨hbelow, above', s.1, s.2, hpassed, Bool.not_eq_true _ ▸ hout⟩

/-- What is hit and was not before has become eligible. -/
theorem Restyled.exposes (wf : t.WellFormed) (wf' : t'.WellFormed)
    (hne : t'.hitTest p root ≠ t.hitTest p root) :
    (∃ above v q, t.Trail root p above a v q ∧ v.bounds.contains q = false) ∧
      ∃ w, t'.hitTest p root = some w ∧ t.Within a w := by
  classical
  rw [wf.hitTest_eq_getLast?, wf'.hitTest_eq_getLast?, e.paintSequence_eq] at hne
  obtain ⟨w, hlast, hw⟩ := exists_getLast?_filter
    (fun w hw => decide_eq_true (e.eligible (of_decide_eq_true hw))) hne
  rw [← e.paintSequence_eq, ← wf'.hitTest_eq_getLast?] at hlast
  obtain ⟨hbelow, houtside⟩ :=
    e.exists_outside wf (wf'.eligible_of_hitTest hlast) (of_decide_eq_false hw)
  exact ⟨houtside, w, hlast, hbelow⟩

end Eligible

/-- That a view stops clipping changes nothing about the views but that. If another view is hit
than before, then the view that clipped lies at or below the root of the hit test, the point is
outside its bounds when it is carried there, and what is hit lies at or below it. So it makes no
difference to points that are inside its bounds, nor to hit tests from a root that it does not
lie below. -/
theorem Reachable.unclipping_exposes [Scalar α] (ht : t.Reachable) (a root : Tag) (p : Vec2 α) :
    let t' := (t.setClips a false).2
    Restyled (View.unclipped a) t t' ∧
    (t'.hitTest p root ≠ t.hitTest p root → t.Within root a ∧
      (∃ above v q, t.Trail root p above a v q ∧ v.bounds.contains q = false) ∧
      ∃ w, t'.hitTest p root = some w ∧ t.Within a w) ∧
    (∀ above v q, t.Trail root p above a v q → v.bounds.contains q = true →
      t'.hitTest p root = t.hitTest p root) ∧
    ((∀ above v q, ¬ t.Trail root p above a v q) → t'.hitTest p root = t.hitTest p root) ∧
    (¬ t.Within root a → t'.hitTest p root = t.hitTest p root) := by
  intro t'
  have wf := ht.wellFormed
  have e : Restyled (View.unclipped a) t t' := wf.restyled_setClips a
  have wf' : t'.WellFormed := wf.update a (fun _ => rfl) fun _ => rfl
  have same : (∀ above v q, t.Trail root p above a v q → v.bounds.contains q = true) →
      t'.hitTest p root = t.hitTest p root := by
    intro hinside
    by_contra hne
    obtain ⟨⟨above, v, q, htrail, hout⟩, -⟩ := e.exposes wf wf' hne
    exact Bool.noConfusion (hout.symm.trans (hinside above v q htrail))
  refine ⟨e, fun hne => ?_, fun above v q htrail hin => same fun above' v' q' htrail' => ?_,
    fun hnone => same fun above v q htrail => absurd htrail (hnone above v q),
    fun hout => same fun above v q htrail => absurd htrail.within hout⟩
  · obtain ⟨⟨above, v, q, htrail, hout⟩, hnew⟩ := e.exposes wf wf' hne
    exact ⟨htrail.within, ⟨above, v, q, htrail, hout⟩, hnew⟩
  · obtain ⟨rfl, rfl⟩ := wf.trail_unique htrail htrail'
    exact hin

/-- A view that clips, and in it one that sticks out. -/
def spilling : Tree Rat :=
  [.insert ⟨3⟩ ⟨2⟩ 0, .setClip ⟨2⟩ true].foldl Tree.after overlap

/-- What sticks out is not hit, and it is once the view around it no longer clips. -/
theorem spilling_unclipped : spilling.hitTest ⟨60, 60⟩ ⟨1⟩ = none ∧
    (spilling.setClips ⟨2⟩ false).2.hitTest ⟨60, 60⟩ ⟨1⟩ = some ⟨3⟩ ∧
    spilling.Within ⟨1⟩ ⟨2⟩ ∧ spilling.Within ⟨2⟩ ⟨3⟩ ∧
    ∃ above v q, spilling.Trail ⟨1⟩ ⟨60, 60⟩ above ⟨2⟩ v q ∧ v.bounds.contains q = false := by
  have hreach : spilling.Reachable := ((Reachable.empty.foldl _).foldl _).foldl _
  have hmiss : spilling.hitTest ⟨60, 60⟩ ⟨1⟩ = none := by cbv
  have hhit : (spilling.setClips ⟨2⟩ false).2.hitTest ⟨60, 60⟩ ⟨1⟩ = some ⟨3⟩ := by cbv
  have hne : (spilling.setClips ⟨2⟩ false).2.hitTest ⟨60, 60⟩ ⟨1⟩ ≠
      spilling.hitTest ⟨60, 60⟩ ⟨1⟩ := by
    rw [hmiss, hhit]
    exact Option.some_ne_none _
  obtain ⟨hinside, houtside, w, hw, hbelow⟩ :=
    (hreach.unclipping_exposes ⟨2⟩ ⟨1⟩ ⟨60, 60⟩).2.1 hne
  cases hw.symm.trans hhit
  exact ⟨hmiss, hhit, hinside, hbelow, houtside⟩

end Tree

end ViewHost
