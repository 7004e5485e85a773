import ViewHost.Proofs.Tree.HitTest
import ViewHost.Proofs.Tree.Path
import ViewHost.Tree.Outline

/-!
# Nothing breaks

The operations on a tree look away when they meet a broken link: they go on with something
else in place of what the link should have led to. Here they are written out once more so that
nothing is hidden. Every handle is looked up in the store, those that the tag table and the
nodes themselves give included, and a handle that is not in the store or a walk that outlasts
it is reported. On the trees that commands lead to there is nothing to report, and so each of
these operations does what the one it is written after does.
-/

namespace ViewHost.Tree

variable {α : Type} {t : Tree α} {h k p : Handle} {n : Node α} {tag root : Tag}

/-- What `f` makes of the node with a tag, or `d` if there is no such tag. -/
def atTag {β : Type} (t : Tree α) (tag : Tag) (d : β) (f : Handle → Except Fault β) :
    Except Fault β :=
  match t.handle? tag with
  | some h => f h
  | none => .ok d

namespace Checked

def node (t : Tree α) (tag : Tag) : Except Fault (Option (Node α)) :=
  t.atTag tag none fun h => some <$> t.node h

def parent (t : Tree α) (tag : Tag) : Except Fault (Option Tag) :=
  t.atTag tag none fun h => do
    match (← t.node h).parent with
    | some p => some <$> t.tagAt p
    | none => return none

def children (t : Tree α) (tag : Tag) : Except Fault (List Tag) :=
  t.atTag tag [] fun h => do (← t.node h).children.mapM t.tagAt

def paintedChildren (t : Tree α) (tag : Tag) : Except Fault (List Tag) :=
  t.atTag tag [] fun h => do (← t.node h).paintOrder.mapM t.tagAt

def ascent (t : Tree α) (root tag : Tag) : Except Fault (Except TreeError (Ascent α)) :=
  t.atTag root (.error (.unknown root)) fun r =>
    t.atTag tag (.error (.unknown tag)) fun h => .ok <$> t.climb r t.size h

def hitTest [Scalar α] (t : Tree α) (p : Vec2 α) (root : Tag) : Except Fault (Option Tag) :=
  t.atTag root none fun h => do
    match ← t.search t.size h p with
    | some hit => some <$> t.tagAt hit
    | none => return none

def outline (t : Tree α) (root : Tag) : Except Fault (List (Nat × View α)) :=
  t.atTag root [] (t.outlineAt t.size 0)

def insert (t : Tree α) (tag parent : Tag) (index : Nat) :
    Except Fault (Except TreeError (Tree α)) :=
  t.atTag tag (.error (.unknown tag)) fun h =>
    t.atTag parent (.error (.unknown parent)) fun p => do
      match ← t.move? h p index with
      | some t' => return .ok t'
      | none => return .error (.cycle tag parent)

def detach (t : Tree α) (tag : Tag) : Except Fault (Bool × Tree α) :=
  t.atTag tag (false, t) t.unlink

def remove (t : Tree α) (tag : Tag) : Except Fault (Nat × Tree α) :=
  t.atTag tag (0, t) fun h => do
    let (_, t) ← t.unlink h
    return t.sweep [h]

def update (t : Tree α) (tag : Tag) (f : View α → View α) : Except Fault (Bool × Tree α) :=
  t.atTag tag (false, t) fun h => do
    let n ← t.node h
    return (true, t.put h { n with view := f n.view })

def setZ (t : Tree α) (tag : Tag) (z : Int) : Except Fault (Bool × Tree α) :=
  t.atTag tag (false, t) fun h => do
    let n ← t.node h
    if n.view.z = z then return (true, t)
    let t := t.put h { n with view := { n.view with z := z } }
    match n.parent with
    | some p => return (true, ← t.repaint p)
    | none => return (true, t)

/-- A command, carried out or refused. -/
def apply [Scalar α] (t : Tree α) : Command α → Except Fault (Except TreeError (Tree α))
  | .create tag kind => return t.create tag kind
  | .insert tag parent index => insert t tag parent index
  | .remove tag => do return .ok (← remove t tag).2
  | .detach tag => do return .ok (← detach t tag).2
  | .setZ tag z => do return .ok (← setZ t tag z).2
  | .setFrame tag frame => do return .ok (← update t tag fun v => { v with frame := frame }).2
  | .setTransform tag transform => do
    return .ok (← update t tag fun v => { v with transform := transform }).2
  | .setClip tag clips => do return .ok (← update t tag fun v => { v with clips := clips }).2
  | .setHidden tag hidden => do return .ok (← update t tag fun v => { v with hidden := hidden }).2
  | .setPointerEvents tag mode => do
    return .ok (← update t tag fun v => { v with pointerEvents := mode }).2
  | .setHitSlop tag insets => do
    return .ok (← update t tag fun v => { v with hitSlop := insets }).2
  | .setCursor tag cursor => do return .ok (← update t tag fun v => { v with cursor := cursor }).2

end Checked

namespace WellFormed

variable {β : Type} (wf : t.WellFormed)

include wf

/-- The tag table gives only handles that are in the store. -/
theorem atTag_eq_ok {d b : β} {f : Handle → Except Fault β} (hnone : t.handle? tag = none → d = b)
    (hsome : ∀ h n, t.handle? tag = some h → t.nodes[h]? = some n → f h = .ok b) :
    t.atTag tag d f = .ok b := by
  rw [atTag]
  cases hh : t.handle? tag with
  | none => exact congrArg Except.ok (hnone hh)
  | some h =>
    obtain ⟨n, hn, -⟩ := wf.exists_node hh
    exact hsome h n hh hn

theorem checked_node (tag : Tag) : Checked.node t tag = .ok (t.node? tag) := by
  refine wf.atTag_eq_ok (fun hh => ?_) fun h n hh hn => ?_
  · rw [node?, hh]
    rfl
  · rw [node?_eq hh, hn, node_eq_ok hn]
    rfl

theorem checked_parent (tag : Tag) : Checked.parent t tag = .ok (t.parent? tag) := by
  refine wf.atTag_eq_ok (fun hh => ?_) fun h n hh hn => ?_
  · rw [parent?, node?, hh]
    rfl
  · rw [wf.parent?_eq hh, parentOf?_of_node hn, node_eq_ok hn, ok_bind]
    cases hp : n.parent with
    | none => rfl
    | some p =>
      obtain ⟨q, hq⟩ := mem_nodes_iff.1 (wf.parent_mem_nodes ((parentOf?_of_node hn).trans hp))
      dsimp only
      rw [tagAt_eq_ok hq, Option.map_some, tagOf_of_node hq]
      rfl

theorem checked_children (tag : Tag) : Checked.children t tag = .ok (t.children tag) := by
  refine wf.atTag_eq_ok (fun hh => ?_) fun h n hh hn => ?_
  · rw [children, node?, hh]
    rfl
  · rw [wf.children_eq hh, node_eq_ok hn, ok_bind, ← childrenOf_of_node hn]
    exact mapM_tagAt_eq_ok fun c hc => wf.mem_nodes_of_mem_childrenOf hc

theorem checked_paintedChildren (tag : Tag) :
    Checked.paintedChildren t tag = .ok (t.paintedChildren tag) := by
  refine wf.atTag_eq_ok (fun hh => ?_) fun h n hh hn => ?_
  · rw [paintedChildren, node?, hh]
    rfl
  · rw [wf.paintedChildren_eq hh, node_eq_ok hn, ok_bind, ← paintedOf_of_node hn]
    exact mapM_tagAt_eq_ok fun c hc => wf.mem_nodes_of_mem_childrenOf (wf.mem_paintedOf_iff.1 hc)

theorem checked_ascent (root tag : Tag) : Checked.ascent t root tag = .ok (t.ascent root tag) := by
  refine wf.atTag_eq_ok (fun hr => ?_) fun r _ hr _ =>
    wf.atTag_eq_ok (fun hh => ?_) fun h _ hh _ => ?_
  · rw [ascent, hr]
  · rw [ascent, hr, hh]
  · obtain ⟨way, hway, -⟩ := wf.climb_eq_ok r (wf.mem_nodes_of_handle? hh)
    rw [ascent, hr, hh]
    dsimp only
    rw [hway]
    rfl

theorem checked_hitTest [Scalar α] (p : Vec2 α) (root : Tag) :
    Checked.hitTest t p root = .ok (t.hitTest p root) := by
  refine wf.atTag_eq_ok (fun hh => ?_) fun h n hh hn => ?_
  · rw [hitTest, hh]
    rfl
  · have hlive := mem_nodes_iff.2 ⟨n, hn⟩
    rw [wf.hitTest_eq hh, wf.search_eq_ok (wf.fits_size hlive), ok_bind, List.getLast?_map]
    cases hhit : (t.allHits t.size h p).getLast? with
    | none => rfl
    | some hit =>
      obtain ⟨m, hm⟩ := mem_nodes_iff.1 (mem_nodes_of_mem_allHits (List.mem_of_getLast? hhit))
      dsimp only
      rw [tagAt_eq_ok hm, Option.map_some, tagOf_of_node hm]
      rfl

theorem checked_insert (tag parent : Tag) (index : Nat) :
    Checked.insert t tag parent index = .ok (t.insert tag parent index) := by
  refine wf.atTag_eq_ok (fun hh => ?_) fun h _ hh hn => wf.atTag_eq_ok (fun hp => ?_)
    fun p _ hp hq => ?_
  · rw [Tree.insert, hh]
  · rw [Tree.insert, hh, hp]
  · have hlive := wf.mem_nodes_of_handle? hh
    have hplive := wf.mem_nodes_of_handle? hp
    rw [Tree.insert, hh, hp]
    dsimp only
    by_cases hanc : t.IsAncestor h p
    · rw [wf.move?_eq_none hplive hanc]
      rfl
    · obtain ⟨_, t', ht', -⟩ := wf.move?_eq_ok hlive hplive hanc index
      rw [ht']
      rfl

theorem checked_detach (tag : Tag) : Checked.detach t tag = .ok (t.detach tag) := by
  refine wf.atTag_eq_ok (fun hh => ?_) fun h n hh hn => ?_
  · rw [Tree.detach, hh]
  · obtain ⟨t', ht', -⟩ := wf.unlink_eq_ok (mem_nodes_iff.2 ⟨n, hn⟩)
    rw [Tree.detach, hh]
    dsimp only
    rw [ht', intact_ok]

theorem checked_remove (tag : Tag) : Checked.remove t tag = .ok (t.remove tag) := by
  refine wf.atTag_eq_ok (fun hh => ?_) fun h n hh hn => ?_
  · rw [Tree.remove, hh]
  · obtain ⟨t', ht', -⟩ := wf.unlink_eq_ok (mem_nodes_iff.2 ⟨n, hn⟩)
    rw [Tree.remove, hh]
    dsimp only
    rw [ht']
    rfl

theorem checked_update (tag : Tag) (f : View α → View α) :
    Checked.update t tag f = .ok (t.update tag f) := by
  refine wf.atTag_eq_ok (fun hh => ?_) fun h n hh hn => ?_
  · rw [Tree.update, hh]
  · rw [Tree.update, hh]
    dsimp only
    rw [node_eq_ok hn]
    rfl

theorem checked_setZ (tag : Tag) (z : Int) : Checked.setZ t tag z = .ok (t.setZ tag z) := by
  refine wf.atTag_eq_ok (fun hh => ?_) fun h n hh hn => ?_
  · rw [Tree.setZ, hh]
  · have hparent := parentOf?_of_node hn
    rw [Tree.setZ, hh]
    simp only [node_eq_ok hn, ok_bind]
    by_cases hz : n.view.z = z
    · rw [if_pos hz, if_pos hz]
      rfl
    · rw [if_neg hz, if_neg hz]
      split
      · next p hp =>
        obtain ⟨t', ht', -⟩ := wf.repaint_withZ_eq_ok hn (hparent.trans hp) z
        rw [withZ] at ht'
        simp only [hp] at ht' ⊢
        rw [ht']
        rfl
      · next hp =>
        simp only [hp]
        rfl

theorem checked_apply [Scalar α] (c : Command α) : Checked.apply t c = .ok (t.apply c) := by
  cases c with
  | create tag kind => rfl
  | insert tag parent index => exact wf.checked_insert tag parent index
  | remove tag => rw [Checked.apply, wf.checked_remove]; rfl
  | detach tag => rw [Checked.apply, wf.checked_detach]; rfl
  | setZ tag z => rw [Checked.apply, wf.checked_setZ]; rfl
  | setFrame tag => rw [Checked.apply, wf.checked_update]; rfl
  | setTransform tag => rw [Checked.apply, wf.checked_update]; rfl
  | setClip tag => rw [Checked.apply, wf.checked_update]; rfl
  | setHidden tag => rw [Checked.apply, wf.checked_update]; rfl
  | setPointerEvents tag => rw [Checked.apply, wf.checked_update]; rfl
  | setHitSlop tag => rw [Checked.apply, wf.checked_update]; rfl
  | setCursor tag => rw [Checked.apply, wf.checked_update]; rfl

end WellFormed

end ViewHost.Tree
