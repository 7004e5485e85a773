import Mathlib
import ViewHost.Proofs.Tree.PaintOrder
import ViewHost.Tree.HitTest

/-!
# Hit testing finds the top-most view

Whether a view may be hit is a matter of the way down to it: no view on the way
may bar the point, all but the last have to let it through to their children,
and the last has to be hit itself. The search never looks at such a way as a
whole. It goes down from the root, later children first, and stops at the first
view that is hit. What it finds is the last view in paint order that may be hit,
because a view is painted before its children and the search looks at it after
them.
-/

namespace ViewHost.Tree

variable {α : Type} [Scalar α] {t : Tree α} {h c : Handle} {n : Node α} {tag root w : Tag}
variable {v : View α} {p : Vec2 α} {depth : Nat}

/-! ## Eligible views -/

/-- The way from `root` down to a view: the views above it, from `root` on, each
with the point as it is in its own space, and the view itself with its point. -/
inductive Trail (t : Tree α) :
    Tag → Vec2 α → List (View α × Vec2 α) → Tag → View α → Vec2 α → Prop where
  | here {root : Tag} {p : Vec2 α} {v : View α} (hv : t.view? root = some v) :
      Trail t root p [] root v p
  | down {root c tag : Tag} {p q : Vec2 α} {u w v : View α} {m : Transform α}
      {above : List (View α × Vec2 α)} (hu : t.view? root = some u)
      (hc : t.parent? c = some root) (hw : t.view? c = some w)
      (hm : w.localFromParent = some m) (rest : Trail t c (m.applyToPoint p) above tag v q) :
      Trail t root p ((u, p) :: above) tag v q

theorem Trail.view?_eq {above : List (View α × Vec2 α)} {q : Vec2 α}
    (htrail : t.Trail root p above tag v q) : t.view? tag = some v := by
  induction htrail with
  | here hv => exact hv
  | down _ _ _ _ _ ih => exact ih

/-- A point in the space of `root` may hit the view `tag`. -/
def Eligible (t : Tree α) (root : Tag) (p : Vec2 α) (tag : Tag) : Prop :=
  ∃ above v q, t.Trail root p above tag v q ∧
    (∀ s ∈ (v, q) :: above, s.1.hidden = false ∧ s.1.pointerEvents ≠ .none ∧
      (s.1.clips → s.1.bounds.contains s.2)) ∧
    (∀ s ∈ above, s.1.pointerEvents.allowsChildren) ∧
    v.pointerEvents.allowsSelf ∧ v.hitBounds.contains q

theorem bars_eq_false_iff : bars v p = false ↔
    v.hidden = false ∧ v.pointerEvents ≠ .none ∧ (v.clips → v.bounds.contains p) := by
  simp [bars, and_assoc]

theorem hits_iff : hits v p ↔ v.pointerEvents.allowsSelf ∧ v.hitBounds.contains p := by
  simp [hits]

/-- Eligibility, one step down at a time. -/
theorem eligible_iff (hv : t.view? root = some v) : t.Eligible root p w ↔
    bars v p = false ∧ (w = root ∧ hits v p ∨ v.pointerEvents.allowsChildren ∧
      ∃ c u m, t.parent? c = some root ∧ t.view? c = some u ∧ u.localFromParent = some m ∧
        t.Eligible c (m.applyToPoint p) w) := by
  rw [bars_eq_false_iff, hits_iff]
  constructor
  · rintro ⟨_, u, q, htrail | ⟨hv', hc, hu, hm, rest⟩, hopen, hthrough, hself, hinside⟩
    · cases hv.symm.trans (by assumption)
      exact ⟨hopen _ List.mem_cons_self, .inl ⟨rfl, hself, hinside⟩⟩
    · cases hv.symm.trans hv'
      rw [List.forall_mem_cons, List.forall_mem_cons] at hopen
      rw [List.forall_mem_cons] at hthrough
      refine ⟨hopen.2.1, .inr ⟨hthrough.1, _, _, _, hc, hu, hm, _, u, q, rest, ?_, hthrough.2,
        hself, hinside⟩⟩
      exact List.forall_mem_cons.2 ⟨hopen.1, hopen.2.2⟩
  · rintro ⟨hbars, ⟨rfl, hself, hinside⟩ | ⟨hallows, c, u, m, hc, hu, hm, above, u', q, htrail,
      hopen, hthrough, hself, hinside⟩⟩
    · exact ⟨[], v, p, .here hv, by simpa using hbars, by simp, hself, hinside⟩
    · refine ⟨(v, p) :: above, u', q, .down hv hc hu hm htrail, ?_,
        List.forall_mem_cons.2 ⟨hallows, hthrough⟩, hself, hinside⟩
      rw [List.forall_mem_cons] at hopen
      exact List.forall_mem_cons.2 ⟨hopen.1, List.forall_mem_cons.2 ⟨hbars, hopen.2⟩⟩

theorem not_eligible_of_unknown (hv : t.view? root = none) : ¬ t.Eligible root p w := by
  rintro ⟨_, u, q, htrail | ⟨hv', -⟩, -⟩
  · cases hv.symm.trans (by assumption)
  · cases hv.symm.trans hv'

/-! ## The search -/

theorem findSomeM?_eq_ok {β γ : Type} {f : β → Except Fault (Option γ)} {g : β → Option γ}
    {xs : List β} (hf : ∀ x ∈ xs, f x = .ok (g x)) : xs.findSomeM? f = .ok (xs.findSome? g) := by
  induction xs with
  | nil => rfl
  | cons x xs ih =>
    rw [List.findSomeM?_cons, hf x List.mem_cons_self, ok_bind, List.findSome?_cons]
    cases g x with
    | none => exact ih fun y hy => hf y (List.mem_cons_of_mem x hy)
    | some => rfl

/-- A point in the space of the parent, in the space of the node at a handle. -/
def carried (t : Tree α) (h : Handle) (p : Vec2 α) : Option (Vec2 α) :=
  (t.nodes[h]?.bind (·.view.localFromParent)).map (·.applyToPoint p)

theorem carried_of_node (hn : t.nodes[h]? = some n) (p : Vec2 α) :
    t.carried h p = n.view.localFromParent.map (·.applyToPoint p) := by
  rw [carried, hn, Option.bind_some]

/-- All nodes at and below `h` that are hit, in paint order. -/
def allHits (t : Tree α) : Nat → Handle → Vec2 α → List Handle
  | 0, _, _ => []
  | depth + 1, h, p =>
    match t.nodes[h]? with
    | none => []
    | some n =>
      if bars n.view p then []
      else (if hits n.view p then [h] else []) ++
        if n.view.pointerEvents.allowsChildren then
          n.paintOrder.flatMap fun c => (t.carried c p).elim [] (t.allHits depth c)
        else []

/-- The search stops at the last of all hits. -/
theorem WellFormed.search_eq_ok (wf : t.WellFormed) (hf : t.Fits depth h) (p : Vec2 α) :
    t.search depth h p = .ok (t.allHits depth h p).getLast? := by
  induction depth generalizing h p with
  | zero => exact absurd hf id
  | succ depth ih =>
    obtain ⟨n, hn, fits⟩ := hf
    rw [search, allHits, node_eq_ok hn, hn]
    by_cases hbars : bars n.view p
    · simp only [ok_bind, hbars, if_true]
      rfl
    simp only [ok_bind, hbars, if_false, List.getLast?_append, Bool.false_eq_true]
    by_cases hallows : n.view.pointerEvents.allowsChildren
    · simp only [hallows, if_true]
      let inChild (c : Handle) := ((t.carried c p).elim [] (t.allHits depth c)).getLast?
      refine (congrArg (· >>= _) (findSomeM?_eq_ok (g := inChild) fun c hc => ?_)).trans ?_
      · have hc : c ∈ n.children := by
          rw [← childrenOf_of_node hn, ← wf.mem_paintedOf_iff, paintedOf_of_node hn]
          exact List.mem_reverse.1 hc
        obtain ⟨m, hm, -⟩ := wf.node_of_mem_children hn hc
        simp only [inChild]
        rw [node_eq_ok hm, ok_bind, carried_of_node hm]
        cases m.view.localFromParent with
        | none => rfl
        | some toChild => exact ih (fits c hc) (toChild.applyToPoint p)
      · rw [← List.getLast?_flatMap]
        simp only [ok_bind]
        cases (n.paintOrder.flatMap _).getLast? with
        | none =>
          by_cases hhits : hits n.view p <;> simp [hhits] <;> rfl
        | some hit => rfl
    · simp only [hallows, if_false, Bool.false_eq_true]
      by_cases hhits : hits n.view p <;> simp [hhits] <;> rfl

/-! ## All hits are all eligible views -/

namespace WellFormed

theorem isAncestor_of_trail (wf : t.WellFormed) (hh : t.handle? root = some h) {q : Vec2 α}
    {above : List (View α × Vec2 α)} (htrail : t.Trail root p above w v q) :
    ∃ k, t.handle? w = some k ∧ t.IsAncestor h k := by
  induction htrail generalizing h with
  | here => exact ⟨h, hh, .refl⟩
  | down _ hc _ _ _ ih =>
    obtain ⟨c, hc, hp⟩ := wf.isParent_of_parent? hh hc
    obtain ⟨k, hk, hck⟩ := ih hc
    exact ⟨k, hk, hck.head hp⟩

theorem eligible_self_iff (wf : t.WellFormed) (hh : t.handle? tag = some h)
    (hn : t.nodes[h]? = some n) :
    t.Eligible tag p tag ↔ bars n.view p = false ∧ hits n.view p := by
  rw [eligible_iff (view?_eq hh hn)]
  refine and_congr_right fun _ => ⟨?_, fun hhits => .inl ⟨rfl, hhits⟩⟩
  rintro (⟨-, hhits⟩ | ⟨-, c, u, m, hc, -, -, above, v, q, htrail, -⟩)
  · exact hhits
  -- no way leads from a child back up
  · obtain ⟨k, hk, hp⟩ := wf.isParent_of_parent? hh hc
    obtain ⟨h', hh', hkh⟩ := wf.isAncestor_of_trail hk htrail
    cases hh.symm.trans hh'
    exact absurd hkh (wf.not_isAncestor_of_isParent hp)

/-- For what is painted with a child, the way down from the parent leads over that
child. -/
theorem eligible_child_iff (wf : t.WellFormed) (hh : t.handle? tag = some h)
    (hn : t.nodes[h]? = some n) (hc : c ∈ t.paintedOf h)
    (hw : w ∈ t.paintedFrom depth (t.tagOf c)) :
    t.Eligible tag p w ↔ bars n.view p = false ∧ n.view.pointerEvents.allowsChildren ∧
      ∃ q, t.carried c p = some q ∧ t.Eligible (t.tagOf c) q w := by
  have hp := wf.isParent_of_mem_paintedOf hc
  have hctag := wf.handle?_tagOf_of_mem_paintedOf hc
  obtain ⟨k, hk, hck⟩ := wf.isAncestor_of_mem_paintedFrom hctag hw
  obtain ⟨m, hm⟩ := mem_nodes_iff.1 (mem_nodes_of_isParent hp)
  rw [eligible_iff (view?_eq hh hn), carried_of_node hm]
  refine and_congr_right fun _ => ⟨?_, ?_⟩
  · rintro (⟨rfl, -⟩ | ⟨hallows, c', u, f, hc', hu, hf, heligible⟩)
    · cases hh.symm.trans hk
      exact absurd hck (wf.not_isAncestor_of_isParent hp)
    · obtain ⟨above, v, q, htrail, -⟩ := id heligible
      obtain ⟨k', hk', hp'⟩ := wf.isParent_of_parent? hh hc'
      obtain ⟨l, hl, hkl⟩ := wf.isAncestor_of_trail hk' htrail
      cases hk.symm.trans hl
      cases wf.eq_of_isAncestor hp hp' hck hkl
      cases (wf.handle?_eq_some_iff.1 hk').2
      cases (view?_eq hctag hm).symm.trans hu
      exact ⟨hallows, f.applyToPoint p, by rw [hf, Option.map_some], heligible⟩
  · rintro ⟨hallows, q, hq, heligible⟩
    obtain ⟨f, hf, rfl⟩ := Option.map_eq_some_iff.1 hq
    refine .inr ⟨hallows, t.tagOf c, m.view, f, ?_, view?_eq hctag hm, hf, heligible⟩
    rw [wf.parent?_eq hctag, hp, Option.map_some, (wf.handle?_eq_some_iff.1 hh).2]

open Classical in
/-- The hits are the eligible views, in the same order. -/
theorem map_allHits (wf : t.WellFormed) (hh : t.handle? tag = some h) (hf : t.Fits depth h)
    (p : Vec2 α) : (t.allHits depth h p).map t.tagOf =
      (t.paintedFrom depth tag).filter fun w => t.Eligible tag p w := by
  induction depth generalizing h tag p with
  | zero => rfl
  | succ depth ih =>
    obtain ⟨n, hn, -⟩ := id hf
    have hself := wf.eligible_self_iff (p := p) hh hn
    have hchild := fun c hc w (hw : w ∈ t.paintedFrom depth (t.tagOf c)) =>
      wf.eligible_child_iff (p := p) hh hn hc hw
    rw [allHits, hn, wf.paintedFrom_succ hh]
    by_cases hbars : bars n.view p
    · simp only [hbars, if_true, List.map_nil]
      refine (List.filter_eq_nil_iff.2 fun w _ => ?_).symm
      simp [eligible_iff (view?_eq hh hn), hbars]
    have hbars : bars n.view p = false := Bool.not_eq_true _ ▸ hbars
    simp only [hbars, true_and] at hself hchild
    have hhere : (if hits n.view p then [h] else []).map t.tagOf =
        [tag].filter fun w => t.Eligible tag p w := by
      by_cases hhits : hits n.view p <;>
        simp [hhits, hself, (wf.handle?_eq_some_iff.1 hh).2]
    have hbelow : (if n.view.pointerEvents.allowsChildren then
          n.paintOrder.flatMap fun c => (t.carried c p).elim [] (t.allHits depth c)
        else []).map t.tagOf =
        ((t.paintedOf h).flatMap fun c => t.paintedFrom depth (t.tagOf c)).filter
          fun w => t.Eligible tag p w := by
      rw [← paintedOf_of_node hn]
      by_cases hallows : n.view.pointerEvents.allowsChildren
      · rw [if_pos hallows, List.map_flatMap, List.filter_flatMap]
        refine List.flatMap_congr fun c hc => ?_
        cases hq : t.carried c p with
        | none =>
          refine (List.filter_eq_nil_iff.2 fun w hw => ?_).symm
          simp [hchild c hc w hw, hq]
        | some q =>
          have hctag := wf.handle?_tagOf_of_mem_paintedOf hc
          refine (ih hctag (hf.child (wf.mem_paintedOf_iff.1 hc)) q).trans
            (List.filter_congr fun w hw => ?_)
          simp [hchild c hc w hw, hq, hallows]
      · rw [if_neg hallows]
        refine (List.filter_eq_nil_iff.2 fun w hw => ?_).symm
        obtain ⟨c, hc, hw⟩ := List.mem_flatMap.1 hw
        simp [hchild c hc w hw, hallows]
    simp only [hbars, Bool.false_eq_true, if_false]
    rw [List.map_append, hhere, hbelow, ← List.filter_append, List.singleton_append]

/-- Every way down leads along the paint sequence. -/
theorem mem_paintedFrom_of_trail (wf : t.WellFormed) (hh : t.handle? root = some h)
    (hf : t.Fits depth h) {q : Vec2 α} {above : List (View α × Vec2 α)}
    (htrail : t.Trail root p above w v q) : w ∈ t.paintedFrom depth root := by
  induction htrail generalizing h depth with
  | here =>
    cases depth with
    | zero => exact absurd hf id
    | succ depth => exact List.mem_cons_self
  | down _ hc _ _ _ ih =>
    cases depth with
    | zero => exact absurd hf id
    | succ depth =>
      obtain ⟨c, hc, hp⟩ := wf.isParent_of_parent? hh hc
      have hchild := wf.mem_childrenOf_iff.2 hp
      rw [wf.paintedFrom_succ hh, List.mem_cons, List.mem_flatMap]
      refine .inr ⟨c, wf.mem_paintedOf_iff.2 hchild, ?_⟩
      rw [(wf.handle?_eq_some_iff.1 hc).2]
      exact ih hc (hf.child hchild)

end WellFormed

theorem mem_nodes_of_mem_allHits {k : Handle} (hk : k ∈ t.allHits depth h p) : k ∈ t.nodes := by
  induction depth generalizing h p with
  | zero => exact absurd hk List.not_mem_nil
  | succ depth ih =>
    rw [allHits] at hk
    split at hk
    · cases hk
    · next n hn =>
      split at hk
      · cases hk
      · rcases List.mem_append.1 hk with hk | hk
        · split at hk
          · exact List.mem_singleton.1 hk ▸ mem_nodes_iff.2 ⟨n, hn⟩
          · cases hk
        · split at hk
          · obtain ⟨c, -, hk⟩ := List.mem_flatMap.1 hk
            cases hq : t.carried c p with
            | none => simp [hq] at hk
            | some q =>
              rw [hq] at hk
              exact ih hk
          · cases hk

theorem WellFormed.hitTest_eq (wf : t.WellFormed) (hh : t.handle? root = some h) (p : Vec2 α) :
    t.hitTest p root = ((t.allHits t.size h p).map t.tagOf).getLast? := by
  have hsearch := wf.search_eq_ok (wf.fits_size (wf.handle?_eq_some_iff.1 hh).1) p
  rw [hitTest, hh, List.getLast?_map]
  simp only [Option.bind_eq_bind, Option.bind_some, hsearch, ok_bind]
  cases hlast : (t.allHits t.size h p).getLast? with
  | none => rfl
  | some k =>
    obtain ⟨n, hn⟩ := mem_nodes_iff.1 (mem_nodes_of_mem_allHits (List.mem_of_getLast? hlast))
    simp only [tagAt_eq_ok hn, ok_bind, Option.map_some, tagOf_of_node hn]
    rfl

open Classical in
theorem WellFormed.hitTest_eq_getLast? (wf : t.WellFormed) (p : Vec2 α) (root : Tag) :
    t.hitTest p root = ((t.paintSequence root).filter fun w => t.Eligible root p w).getLast? := by
  cases hh : t.handle? root with
  | none =>
    have hv : t.view? root = none := by simp [view?, node?, hh]
    have hfilter : ((t.paintSequence root).filter fun w => t.Eligible root p w) = [] :=
      List.filter_eq_nil_iff.2 fun w _ => by simpa using not_eligible_of_unknown hv
    rw [hfilter, hitTest, hh]
    rfl
  | some h =>
    rw [wf.hitTest_eq hh, wf.map_allHits hh (wf.fits_size (wf.handle?_eq_some_iff.1 hh).1)]
    rfl

open Classical in
/-- A hit test finds the last view in paint order that the point may hit, and it
finds none only if there is none or no such root. -/
theorem Reachable.hitTest_eq_last_eligible (ht : t.Reachable) (p : Vec2 α) (root : Tag) :
    t.hitTest p root = ((t.paintSequence root).filter fun w => t.Eligible root p w).getLast? ∧
    (t.hitTest p root = none ↔ ¬ t.contains root ∨ ∀ w, ¬ t.Eligible root p w) := by
  have wf := ht.wellFormed
  cases hh : t.handle? root with
  | none =>
    have hv : t.view? root = none := by simp [view?, node?, hh]
    have hnone : t.hitTest p root = none := by simp [hitTest, hh]
    have hfilter : ((t.paintSequence root).filter fun w => t.Eligible root p w) = [] :=
      List.filter_eq_nil_iff.2 fun w _ => by simpa using not_eligible_of_unknown hv
    refine ⟨by rw [hnone, hfilter, List.getLast?_nil], fun _ => .inr fun w => ?_, fun _ => hnone⟩
    exact not_eligible_of_unknown hv
  | some h =>
    have hf := wf.fits_size (wf.handle?_eq_some_iff.1 hh).1
    have hlast := wf.hitTest_eq hh p
    rw [wf.map_allHits hh hf] at hlast
    have hcontains : t.contains root := by
      rw [contains, Std.ExtTreeMap.contains_eq_isSome_getElem?]
      exact Option.isSome_iff_exists.2 ⟨h, hh⟩
    refine ⟨hlast, ?_⟩
    rw [hlast, List.getLast?_eq_none_iff, List.filter_eq_nil_iff,
      or_iff_right (not_not_intro hcontains)]
    refine ⟨fun hall w heligible => ?_, fun hall w _ => by simpa using hall w⟩
    obtain ⟨above, v, q, htrail, -⟩ := id heligible
    simpa [heligible] using hall w (wf.mem_paintedFrom_of_trail hh hf htrail)

/-- A view without a face of its own, two overlapping views in it, and the lower
one in front of the other. -/
def overlap : Tree Rat :=
  [.setFrame ⟨1⟩ ⟨0, 0, 100, 100⟩, .setFrame ⟨2⟩ ⟨10, 10, 40, 40⟩, .setFrame ⟨3⟩ ⟨30, 30, 40, 40⟩,
    .setPointerEvents ⟨1⟩ .boxNone].foldl Tree.after liftedLast

open Classical in
theorem overlap_hitTest : overlap.Reachable ∧
    ((overlap.paintSequence ⟨1⟩).filter fun w => overlap.Eligible ⟨1⟩ ⟨40, 40⟩ w).getLast? =
      some ⟨2⟩ ∧ ∀ w, ¬ overlap.Eligible ⟨1⟩ ⟨5, 5⟩ w := by
  have hreach : overlap.Reachable := (Reachable.empty.foldl _).foldl _
  have hhit : overlap.hitTest ⟨40, 40⟩ ⟨1⟩ = some ⟨2⟩ := by cbv
  have hmiss : overlap.hitTest ⟨5, 5⟩ ⟨1⟩ = none := by cbv
  have hroot : ¬ ¬ overlap.contains ⟨1⟩ := by decide +kernel
  exact ⟨hreach, (hreach.hitTest_eq_last_eligible ⟨40, 40⟩ ⟨1⟩).1 ▸ hhit,
    ((hreach.hitTest_eq_last_eligible ⟨5, 5⟩ ⟨1⟩).2.1 hmiss).resolve_left hroot⟩

end ViewHost.Tree
