import ViewHost.Hover.Tracker
import ViewHost.Proofs.Touch.Reply
import ViewHost.Proofs.Tree.HitTest
import ViewHost.Proofs.Tree.Path

/-!
# The walks agree

Paths, boxes and maps into the space of a view are found by going up from the view, and hits
by going down from the root. All of them follow the same links: what the one walk passes on
its way down, the others pass on their way up, in the opposite order. They differ in what
stops them. The map into a view's space needs the maps into all views passed, and the first
that is missing is reported even if the way does not lead to the root.
-/

namespace ViewHost.Tree

variable {α : Type} {t : Tree α} {h k p r stop : Handle} {n : Node α} {ns : List (Node α)}
variable {root tag : Tag} {arrived : Bool}

/-! ## The way up -/

/-- The nodes that are passed on the way up from a node, and whether it ends at `stop`. -/
inductive Climbs (t : Tree α) (stop : Handle) : Handle → List (Node α) → Bool → Prop where
  | here : Climbs t stop stop [] true
  | top {h : Handle} {n : Node α} (hs : h ≠ stop) (hn : t.nodes[h]? = some n)
      (hp : n.parent = none) : Climbs t stop h [n] false
  | step {h p : Handle} {n : Node α} {ns : List (Node α)} {arrived : Bool} (hs : h ≠ stop)
      (hn : t.nodes[h]? = some n) (hp : n.parent = some p) (hrest : Climbs t stop p ns arrived) :
      Climbs t stop h (n :: ns) arrived

/-- A climb passes what is on the way up. -/
theorem climbs_of_climb {steps : Nat} {way : Ascent α} (hway : t.climb stop steps h = .ok way) :
    t.Climbs stop h way.passed way.arrived := by
  induction steps generalizing h way with
  | zero =>
    rw [climb] at hway
    split at hway
    · next hs =>
      cases hway
      exact hs ▸ .here
    · cases hway
  | succ steps ih =>
    rw [climb] at hway
    split at hway
    · next hs =>
      cases hway
      exact hs ▸ .here
    next hs =>
    cases hn : t.nodes[h]? with
    | none => simp [node, hn, bind, Except.bind] at hway
    | some n =>
      simp only [node_eq_ok hn, ok_bind] at hway
      cases hp : n.parent with
      | none =>
        rw [hp] at hway
        cases hway
        exact .top hs hn hp
      | some p =>
        rw [hp] at hway
        cases hrest : t.climb stop steps p with
        | error f => simp [hrest, bind, Except.bind] at hway
        | ok rest =>
          simp only [hrest, ok_bind] at hway
          cases hway
          exact .step hs hn hp (ih hrest)

namespace Climbs

theorem unique {ns' : List (Node α)} {arrived' : Bool} (hway : t.Climbs stop h ns arrived)
    (hway' : t.Climbs stop h ns' arrived') : ns = ns' ∧ arrived = arrived' := by
  induction hway generalizing ns' arrived' with
  | here =>
    cases hway' with
    | here => exact ⟨rfl, rfl⟩
    | top hs => exact absurd rfl hs
    | step hs => exact absurd rfl hs
  | top hs hn hp =>
    cases hway' with
    | here => exact absurd rfl hs
    | top _ hn' =>
      cases hn.symm.trans hn'
      exact ⟨rfl, rfl⟩
    | step _ hn' hp' =>
      cases hn.symm.trans hn'
      cases hp.symm.trans hp'
  | step hs hn hp _ ih =>
    cases hway' with
    | here => exact absurd rfl hs
    | top _ hn' hp' =>
      cases hn.symm.trans hn'
      cases hp.symm.trans hp'
    | step _ hn' hp' hrest' =>
      cases hn.symm.trans hn'
      cases hp.symm.trans hp'
      obtain ⟨rfl, rfl⟩ := ih hrest'
      exact ⟨rfl, rfl⟩

theorem isAncestor (hway : t.Climbs stop h ns true) : t.IsAncestor stop h := by
  generalize harrived : true = arrived at hway
  induction hway with
  | here => exact .refl
  | top => cases harrived
  | step _ hn hp _ ih => exact (ih harrived).tail ((parentOf?_of_node hn).trans hp)

theorem exists_handle (hway : t.Climbs r h ns arrived) (hn : n ∈ ns) :
    ∃ k : Handle, t.nodes[k]? = some n := by
  induction hway with
  | here => cases hn
  | top _ hn' _ =>
    cases List.mem_singleton.1 hn
    exact ⟨_, hn'⟩
  | step _ hn' _ _ ih =>
    obtain rfl | hn := List.mem_cons.1 hn
    · exact ⟨_, hn'⟩
    · exact ih hn

/-- A way up to a child leads on to its parent. -/
theorem extend {c : Handle} {m : Node α} (wf : t.WellFormed) (hway : t.Climbs c h ns true)
    (hm : t.nodes[c]? = some m) (hp : m.parent = some r) : t.Climbs r h (ns ++ [m]) true := by
  have hparent : t.IsParent r c := (parentOf?_of_node hm).trans hp
  generalize harrived : true = arrived at hway
  induction hway with
  | here => exact .step (wf.ne_of_isParent hparent).symm hm hp .here
  | top => cases harrived
  | @step h p n ns _ hs hn hp' hrest ih =>
    subst harrived
    refine .step ?_ hn hp' (ih rfl)
    rintro rfl
    exact wf.not_isAncestor_of_isParent hparent (Climbs.step hs hn hp' hrest).isAncestor

end Climbs

/-! ## By tag -/

theorem WellFormed.parent?_tagOf (wf : t.WellFormed) (hp : t.IsParent p h) :
    t.parent? (t.tagOf h) = some (t.tagOf p) := by
  rw [wf.parent?_eq (wf.handle?_tagOf (mem_nodes_of_isParent hp)), hp, Option.map_some]

/-- Views are above one another as their nodes are. -/
theorem WellFormed.isAncestor_iff (wf : t.WellFormed) (hr : t.handle? root = some r)
    (hh : t.handle? tag = some h) : t.IsAncestor r h ↔
      Relation.ReflTransGen (fun above below => t.parent? below = some above) root tag := by
  constructor
  · intro hanc
    rw [← (wf.handle?_eq_some_iff.1 hr).2, ← (wf.handle?_eq_some_iff.1 hh).2]
    exact Relation.ReflTransGen.lift t.tagOf (fun _ _ hp => wf.parent?_tagOf hp) _ _ hanc
  · intro htags
    induction htags using Relation.ReflTransGen.head_induction_on generalizing r with
    | refl =>
      cases hr.symm.trans hh
      exact .refl
    | head hp _ ih =>
      obtain ⟨c, hc, hparent⟩ := wf.isParent_of_parent? hr hp
      exact (ih hc).head hparent

/-- The tags passed on a way up that arrives, the other way round, are links of the tree one
after the other. -/
theorem Climbs.isChain (wf : t.WellFormed) (hr : t.handle? root = some r)
    (hh : t.handle? tag = some h) (hway : t.Climbs r h ns true) :
    (root :: (ns.map (·.view.tag)).reverse).IsChain (fun a b => t.parent? b = some a) ∧
      (root :: (ns.map (·.view.tag)).reverse).getLast? = some tag := by
  generalize harrived : true = arrived at hway
  induction hway generalizing tag with
  | here =>
    cases (wf.handle?_eq_some_iff.1 hr).2.symm.trans (wf.handle?_eq_some_iff.1 hh).2
    exact ⟨.singleton _, rfl⟩
  | top => cases harrived
  | @step h p n ns _ hs hn hp hrest ih =>
    have hparent : t.IsParent p h := (parentOf?_of_node hn).trans hp
    have htag : t.tagOf h = tag := (wf.handle?_eq_some_iff.1 hh).2
    obtain ⟨hchain, hlast⟩ := ih (wf.handle?_tagOf (wf.parent_mem_nodes hparent)) harrived
    rw [List.map_cons, List.reverse_cons, ← List.cons_append, ← tagOf_of_node hn, htag]
    refine ⟨hchain.append (.singleton _) fun x hx y hy => ?_, List.getLast?_concat⟩
    cases hlast.symm.trans hx
    cases hy
    rw [← htag]
    exact wf.parent?_tagOf hparent

theorem WellFormed.parent?_eq_none (wf : t.WellFormed) (hn : t.nodes[h]? = some n)
    (hp : n.parent = none) : t.parent? (t.tagOf h) = none := by
  rw [wf.parent?_eq (wf.handle?_tagOf (mem_nodes_iff.2 ⟨n, hn⟩)), parentOf?_of_node hn, hp,
    Option.map_none]

/-- The way up from a view of the tree. -/
theorem WellFormed.ascent_eq_ok (wf : t.WellFormed) (hr : t.handle? root = some r)
    (hh : t.handle? tag = some h) : ∃ way, t.ascent root tag = .ok way ∧
      t.Climbs r h way.passed way.arrived ∧ (way.arrived = true ↔ t.IsAncestor r h) := by
  obtain ⟨way, hway, harrived⟩ := wf.climb_eq_ok r (wf.mem_nodes_of_handle? hh)
  exact ⟨way, by rw [ascent, hr, hh]; simp only [hway, intact_ok], climbs_of_climb hway, harrived⟩

theorem exists_handle_iff : t.contains tag = true ↔ ∃ h, t.handle? tag = some h := by
  rw [contains, Std.ExtTreeMap.contains_eq_isSome_getElem?, Option.isSome_iff_exists]
  rfl

theorem handle?_eq_none_iff : t.handle? tag = none ↔ t.contains tag = false := by
  rw [handle?, contains, Std.ExtTreeMap.contains_eq_isSome_getElem?, Option.isSome_eq_false_iff,
    Option.isNone_iff_eq_none]

theorem handles_of_path? {path : List Tag} (hpath : t.path? root tag = some path) :
    ∃ r h, t.handle? root = some r ∧ t.handle? tag = some h := by
  rw [path?, ascent] at hpath
  cases hr : t.handle? root with
  | none => simp [hr] at hpath
  | some r =>
    cases hh : t.handle? tag with
    | none => simp [hr, hh] at hpath
    | some h => exact ⟨r, h, rfl, rfl⟩

theorem path?_eq_some {way : Ascent α} (hway : t.ascent root tag = .ok way) {path : List Tag} :
    t.path? root tag = some path ↔
      way.arrived = true ∧ root :: (way.passed.map (·.view.tag)).reverse = path := by
  rw [path?, hway]
  dsimp only
  cases way.arrived <;> simp

theorem WellFormed.exists_path?_iff (wf : t.WellFormed) : (∃ path, t.path? root tag = some path) ↔
    t.contains root = true ∧ t.contains tag = true ∧
      Relation.ReflTransGen (fun above below => t.parent? below = some above) root tag := by
  rw [exists_handle_iff, exists_handle_iff]
  constructor
  · rintro ⟨path, hpath⟩
    obtain ⟨r, h, hr, hh⟩ := handles_of_path? hpath
    obtain ⟨way, hway, -, harrived⟩ := wf.ascent_eq_ok hr hh
    have hanc := harrived.1 ((path?_eq_some hway).1 hpath).1
    exact ⟨⟨r, hr⟩, ⟨h, hh⟩, (wf.isAncestor_iff hr hh).1 hanc⟩
  · rintro ⟨⟨r, hr⟩, ⟨h, hh⟩, htags⟩
    obtain ⟨way, hway, -, harrived⟩ := wf.ascent_eq_ok hr hh
    have hanc := (wf.isAncestor_iff hr hh).2 htags
    exact ⟨_, (path?_eq_some hway).2 ⟨harrived.2 hanc, rfl⟩⟩

/-- A path goes along the links, past no view twice. -/
theorem WellFormed.path?_leads (wf : t.WellFormed) {path : List Tag}
    (hpath : t.path? root tag = some path) : path.head? = some root ∧ path.getLast? = some tag ∧
      path.IsChain (fun above below => t.parent? below = some above) ∧ path.Nodup := by
  obtain ⟨r, h, hr, hh⟩ := handles_of_path? hpath
  obtain ⟨⟨passed, arrived⟩, hway, hclimbs, -⟩ := wf.ascent_eq_ok hr hh
  obtain ⟨rfl, rfl⟩ := (path?_eq_some hway).1 hpath
  obtain ⟨hchain, hlast⟩ := hclimbs.isChain wf hr hh
  exact ⟨rfl, hlast, hchain, (wf.path?_distinct hpath).1⟩

theorem ascent_of_not_root (hroot : t.contains root = false) :
    t.ascent root tag = .error (.unknown root) := by
  rw [ascent, handle?_eq_none_iff.2 hroot]

theorem ascent_of_not_tag (hroot : t.contains root = true) (htag : t.contains tag = false) :
    t.ascent root tag = .error (.unknown tag) := by
  obtain ⟨r, hr⟩ := exists_handle_iff.1 hroot
  rw [ascent, hr, handle?_eq_none_iff.2 htag]

/-! ## Maps and obstacles -/

section Maps

variable [Scalar α]

/-- The map into the space of a view from that of its parent. -/
def inward? (t : Tree α) (tag : Tag) : Option (Transform α) :=
  (t.view? tag).bind (·.localFromParent)

/-- What is met first on the way from a view up to `root` that a map into the space of `tag`
cannot get past. Whether a view can be entered is looked at before its parent is. -/
inductive Obstacle (t : Tree α) (root tag : Tag) : Tag → TreeError → Prop where
  | singular {x : Tag} (hx : x ≠ root) (hinward : t.inward? x = none) :
      Obstacle t root tag x (.singular x)
  | parentless {x : Tag} {m : Transform α} (hx : x ≠ root) (hinward : t.inward? x = some m)
      (hparent : t.parent? x = none) : Obstacle t root tag x (.notInside tag root)
  | above {x y : Tag} {m : Transform α} {e : TreeError} (hx : x ≠ root)
      (hinward : t.inward? x = some m) (hparent : t.parent? x = some y)
      (hrest : Obstacle t root tag y e) : Obstacle t root tag x e

namespace Obstacle

variable {x y : Tag} {m : Transform α} {e : TreeError}

theorem not_root : ¬ t.Obstacle root tag root e := by
  rintro (⟨hx, -⟩ | ⟨hx, -, -⟩ | ⟨hx, -, -, -⟩) <;> exact hx rfl

theorem iff_of_singular (hx : x ≠ root) (hinward : t.inward? x = none) :
    t.Obstacle root tag x e ↔ e = .singular x := by
  constructor
  · rintro (- | ⟨-, hinward', -⟩ | ⟨-, hinward', -, -⟩)
    · rfl
    · cases hinward.symm.trans hinward'
    · cases hinward.symm.trans hinward'
  · rintro rfl
    exact .singular hx hinward

theorem iff_of_parentless (hx : x ≠ root) (hinward : t.inward? x = some m)
    (hparent : t.parent? x = none) : t.Obstacle root tag x e ↔ e = .notInside tag root := by
  constructor
  · rintro (⟨-, hinward'⟩ | - | ⟨-, -, hparent', -⟩)
    · cases hinward.symm.trans hinward'
    · rfl
    · cases hparent.symm.trans hparent'
  · rintro rfl
    exact .parentless hx hinward hparent

theorem iff_of_parent (hx : x ≠ root) (hinward : t.inward? x = some m)
    (hparent : t.parent? x = some y) : t.Obstacle root tag x e ↔ t.Obstacle root tag y e := by
  constructor
  · rintro (⟨-, hinward'⟩ | ⟨-, -, hparent'⟩ | ⟨-, -, hparent', hrest⟩)
    · cases hinward.symm.trans hinward'
    · cases hparent.symm.trans hparent'
    · cases hparent.symm.trans hparent'
      exact hrest
  · exact .above hx hinward hparent

end Obstacle

theorem WellFormed.inward?_tagOf (wf : t.WellFormed) (hn : t.nodes[h]? = some n) :
    t.inward? (t.tagOf h) = n.view.localFromParent := by
  rw [inward?, view?_eq (wf.handle?_tagOf (mem_nodes_iff.2 ⟨n, hn⟩)) hn, Option.bind_some]

/-- The map into a view, put behind those into the views below it. -/
def enter (acc : Transform α) (n : Node α) : Except TreeError (Transform α) :=
  match n.view.localFromParent with
  | some step => .ok (acc.combine step)
  | none => .error (.singular n.view.tag)

theorem enter_eq_ok {acc m : Transform α} (hm : n.view.localFromParent = some m) :
    enter acc n = .ok (acc.combine m) := by rw [enter, hm]

theorem enter_eq_error {acc : Transform α} (hm : n.view.localFromParent = none) :
    enter acc n = .error (.singular n.view.tag) := by rw [enter, hm]

/-- The maps into the views passed, put together, if the way has arrived. -/
def gather (root tag : Tag) (acc : Transform α) (ns : List (Node α)) (arrived : Bool) :
    Except TreeError (Transform α) := do
  let m ← ns.foldlM enter acc
  if arrived then return m else throw (.notInside tag root)

theorem gather_nil (acc : Transform α) : gather root tag acc [] arrived =
    if arrived then .ok acc else .error (.notInside tag root) := by
  cases arrived <;> rfl

theorem gather_cons_of_some {acc m : Transform α} (hm : n.view.localFromParent = some m) :
    gather root tag acc (n :: ns) arrived = gather root tag (acc.combine m) ns arrived := by
  rw [gather, List.foldlM_cons, enter_eq_ok hm]
  rfl

theorem gather_cons_of_none {acc : Transform α} (hm : n.view.localFromParent = none) :
    gather root tag acc (n :: ns) arrived = .error (.singular n.view.tag) := by
  rw [gather, List.foldlM_cons, enter_eq_error hm]
  rfl

/-- The steps are combined in the order in which they are met. -/
theorem gather_eq_ok {acc m : Transform α} : gather root tag acc ns arrived = .ok m ↔
    arrived = true ∧ ∃ steps, ns.mapM (·.view.localFromParent) = some steps ∧
      steps.foldl .combine acc = m := by
  induction ns generalizing acc with
  | nil => cases arrived <;> simp [gather_nil]
  | cons n ns ih =>
    cases hm : n.view.localFromParent with
    | none =>
      rw [gather_cons_of_none hm]
      simp [hm]
    | some step =>
      rw [gather_cons_of_some hm, ih]
      cases hsteps : ns.mapM (·.view.localFromParent) <;> simp [hm, hsteps]

/-- It fails with the first obstacle on the way. -/
theorem gather_eq_error (wf : t.WellFormed) (hr : t.handle? root = some r) (hh : h ∈ t.nodes)
    (hway : t.Climbs r h ns arrived) {acc : Transform α} {e : TreeError} :
    gather root tag acc ns arrived = .error e ↔ t.Obstacle root tag (t.tagOf h) e := by
  have hne : ∀ {h}, h ∈ t.nodes → h ≠ r → t.tagOf h ≠ root := by
    intro h hh hs htag
    exact hs (wf.tagOf_inj hh (wf.mem_nodes_of_handle? hr) (htag.trans
      (wf.handle?_eq_some_iff.1 hr).2.symm))
  induction hway generalizing acc with
  | here =>
    rw [(wf.handle?_eq_some_iff.1 hr).2, iff_false_right Obstacle.not_root, gather_nil]
    exact nofun
  | @top h n hs hn hp =>
    have hinward := wf.inward?_tagOf hn
    cases hm : n.view.localFromParent with
    | none =>
      rw [gather_cons_of_none hm, Obstacle.iff_of_singular (hne hh hs) (hinward.trans hm),
        tagOf_of_node hn, Except.error.injEq, eq_comm]
    | some m =>
      rw [gather_cons_of_some hm, Obstacle.iff_of_parentless (hne hh hs) (hinward.trans hm)
        (wf.parent?_eq_none hn hp), gather_nil, if_neg Bool.false_ne_true, Except.error.injEq,
        eq_comm]
  | @step h p n ns arrived hs hn hp hrest ih =>
    have hinward := wf.inward?_tagOf hn
    have hparent : t.IsParent p h := (parentOf?_of_node hn).trans hp
    cases hm : n.view.localFromParent with
    | none =>
      rw [gather_cons_of_none hm, Obstacle.iff_of_singular (hne hh hs) (hinward.trans hm),
        tagOf_of_node hn, Except.error.injEq, eq_comm]
    | some m =>
      rw [gather_cons_of_some hm, Obstacle.iff_of_parent (hne hh hs) (hinward.trans hm)
        (wf.parent?_tagOf hparent)]
      exact ih (wf.parent_mem_nodes hparent)

theorem rootToLocal_eq_gather {way : Ascent α} (hway : t.ascent root tag = .ok way) :
    t.rootToLocal root tag = gather root tag .identity way.passed way.arrived := by
  rw [rootToLocal, hway]
  rfl

theorem globalFrame_eq {way : Ascent α} {v : View α} (hway : t.ascent root tag = .ok way)
    (hv : t.view? tag = some v) : t.globalFrame tag root =
      if way.arrived then .ok ((rootFromLocal way.passed).applyToRect v.bounds)
      else .error (.notInside tag root) := by
  obtain ⟨passed, arrived⟩ := way
  rw [globalFrame, hway, hv]
  cases arrived <;> rfl

theorem WellFormed.mapM_inward? (wf : t.WellFormed)
    (hns : ∀ n ∈ ns, ∃ k : Handle, t.nodes[k]? = some n) :
    (ns.map (·.view.tag)).mapM t.inward? = ns.mapM (·.view.localFromParent) := by
  induction ns with
  | nil => rfl
  | cons n ns ih =>
    rw [List.forall_mem_cons] at hns
    obtain ⟨⟨k, hk⟩, hns⟩ := hns
    rw [List.map_cons, List.mapM_cons, List.mapM_cons, ih hns, ← tagOf_of_node hk,
      wf.inward?_tagOf hk]

theorem error_of_ascent {e : TreeError} (hway : t.ascent root tag = .error e) :
    t.globalFrame tag root = .error e ∧ t.rootToLocal root tag = .error e := by
  rw [globalFrame, rootToLocal, hway]
  exact ⟨rfl, rfl⟩

theorem WellFormed.globalFrame_iff (wf : t.WellFormed) (hr : t.handle? root = some r)
    (hh : t.handle? tag = some h) :
    ((∃ box, t.globalFrame tag root = .ok box) ↔ ∃ path, t.path? root tag = some path) ∧
      (t.path? root tag = none → t.globalFrame tag root = .error (.notInside tag root)) := by
  obtain ⟨way, hway, -, -⟩ := wf.ascent_eq_ok hr hh
  obtain ⟨n, hn, -⟩ := wf.exists_node hh
  rw [globalFrame_eq hway (view?_eq hh hn), path?, hway]
  dsimp only
  cases way.arrived <;> simp

theorem WellFormed.rootToLocal_eq_ok_iff (wf : t.WellFormed) (hr : t.handle? root = some r)
    (hh : t.handle? tag = some h) {m : Transform α} :
    t.rootToLocal root tag = .ok m ↔ ∃ path steps, t.path? root tag = some path ∧
      path.tail.reverse.mapM t.inward? = some steps ∧ steps.foldl .combine .identity = m := by
  obtain ⟨way, hway, hclimbs, -⟩ := wf.ascent_eq_ok hr hh
  have hinwards := wf.mapM_inward? fun n hn => hclimbs.exists_handle hn
  rw [rootToLocal_eq_gather hway, gather_eq_ok, ← hinwards]
  simp only [path?_eq_some hway]
  constructor
  · rintro ⟨harrived, steps, hsteps, hm⟩
    exact ⟨_, steps, ⟨harrived, rfl⟩, by rwa [List.tail_cons, List.reverse_reverse], hm⟩
  · rintro ⟨_, steps, ⟨harrived, rfl⟩, hsteps, hm⟩
    rw [List.tail_cons, List.reverse_reverse] at hsteps
    exact ⟨harrived, steps, hsteps, hm⟩

theorem WellFormed.rootToLocal_eq_error_iff (wf : t.WellFormed) (hr : t.handle? root = some r)
    (hh : t.handle? tag = some h) {e : TreeError} :
    t.rootToLocal root tag = .error e ↔ t.Obstacle root tag tag e := by
  obtain ⟨way, hway, hclimbs, -⟩ := wf.ascent_eq_ok hr hh
  rw [rootToLocal_eq_gather hway, gather_eq_error wf hr (wf.mem_nodes_of_handle? hh) hclimbs,
    (wf.handle?_eq_some_iff.1 hh).2]

/-! ## The way down -/

/-- A way down is a way up, and the maps of the views passed carry the point along it. -/
theorem WellFormed.climbs_of_trail (wf : t.WellFormed) {p q : Vec2 α} {v : View α}
    {above : List (View α × Vec2 α)} (htrail : t.Trail root p above tag v q)
    (hr : t.handle? root = some r) (hh : t.handle? tag = some h) :
    ∃ ns, t.Climbs r h ns true ∧ ∃ steps, ns.mapM (·.view.localFromParent) = some steps ∧
      steps.foldr Transform.applyToPoint p = q := by
  induction htrail generalizing r with
  | here =>
    cases hr.symm.trans hh
    exact ⟨[], .here, [], rfl, rfl⟩
  | @down root c tag p q u w v m above _ hc hw hm _ ih =>
    obtain ⟨k, hk, hparent⟩ := wf.isParent_of_parent? hr hc
    obtain ⟨ns, hway, steps, hsteps, hq⟩ := ih hk hh
    obtain ⟨n, hn, hp⟩ := parentOf?_eq_some_iff.1 hparent
    cases (view?_eq hk hn).symm.trans hw
    refine ⟨ns ++ [n], hway.extend wf hn hp, steps ++ [m], ?_, ?_⟩
    · rw [List.mapM_append, hsteps]
      simp [hm]
    · rw [List.foldr_append]
      exact hq

theorem WellFormed.eligible_of_hitTest (wf : t.WellFormed) {p : Vec2 α}
    (hhit : t.hitTest p root = some tag) : t.Eligible root p tag := by
  classical
  rw [wf.hitTest_eq_getLast?] at hhit
  have hmem := (List.mem_filter.1 (List.mem_of_getLast? hhit)).2
  exact of_decide_eq_true hmem

/-- What is hit can be reached from the root, and the maps of the views passed carry the point
into the region in which the view is hit. -/
theorem WellFormed.carried_of_hitTest (wf : t.WellFormed) {p : Vec2 α}
    (hhit : t.hitTest p root = some tag) :
    ∃ path steps v, t.path? root tag = some path ∧
      path.tail.reverse.mapM t.inward? = some steps ∧
      t.rootToLocal root tag = .ok (steps.foldl .combine .identity) ∧ t.view? tag = some v ∧
      v.hitBounds.contains (steps.foldr Transform.applyToPoint p) = true := by
  obtain ⟨r, hr⟩ : ∃ r, t.handle? root = some r := by
    cases hr : t.handle? root with
    | none => simp [hitTest, hr] at hhit
    | some r => exact ⟨r, rfl⟩
  obtain ⟨above, v, q, htrail, -, -, -, hinside⟩ := wf.eligible_of_hitTest hhit
  obtain ⟨h, hh, hanc⟩ := wf.isAncestor_of_trail hr htrail
  obtain ⟨ns, hclimbs, steps, hsteps, rfl⟩ := wf.climbs_of_trail htrail hr hh
  obtain ⟨way, hway, hclimbs', harrived⟩ := wf.ascent_eq_ok hr hh
  obtain ⟨hpassed, -⟩ := hclimbs.unique hclimbs'
  rw [hpassed] at hsteps
  refine ⟨_, steps, v, (path?_eq_some hway).2 ⟨harrived.2 hanc, rfl⟩, ?_, ?_, htrail.view?_eq,
    hinside⟩
  · rw [List.tail_cons, List.reverse_reverse,
      wf.mapM_inward? fun n hn => hclimbs'.exists_handle hn, hsteps]
  · rw [rootToLocal_eq_gather hway]
    exact gather_eq_ok.2 ⟨harrived.2 hanc, steps, hsteps, rfl⟩

theorem WellFormed.exists_of_hitTest (wf : t.WellFormed) {p : Vec2 α}
    (hhit : t.hitTest p root = some tag) :
    ∃ path m, t.path? root tag = some path ∧ t.rootToLocal root tag = .ok m := by
  obtain ⟨path, steps, v, hpath, -, hm, -⟩ := wf.carried_of_hitTest hhit
  exact ⟨path, _, hpath, hm⟩

end Maps

/-- A path leads from `root` to `tag` if and only if both are there and `tag` is `root` or lies
below it, and it goes along the links, past no view twice. The box of `tag` in the space of
`root` is known exactly then. The map into the space of `tag` is known if the views on the path
can be entered, but for `root`, and puts their maps together, that of `tag` first; otherwise
the first obstacle on the way up is told. Views that do not exist are told before that, `root`
before `tag`. For a hit both path and map are known, and hovering and touches go by them. -/
theorem Reachable.walks_agree [Scalar α] (ht : t.Reachable) (root tag : Tag) :
    ((∃ path, t.path? root tag = some path) ↔
      t.contains root = true ∧ t.contains tag = true ∧
        Relation.ReflTransGen (fun above below => t.parent? below = some above) root tag) ∧
    (∀ path, t.path? root tag = some path →
      path.head? = some root ∧ path.getLast? = some tag ∧
        path.IsChain (fun above below => t.parent? below = some above) ∧ path.Nodup) ∧
    (t.contains root = false →
      t.globalFrame tag root = .error (.unknown root) ∧
        t.rootToLocal root tag = .error (.unknown root)) ∧
    (t.contains root = true → t.contains tag = false →
      t.globalFrame tag root = .error (.unknown tag) ∧
        t.rootToLocal root tag = .error (.unknown tag)) ∧
    (t.contains root = true → t.contains tag = true →
      ((∃ box, t.globalFrame tag root = .ok box) ↔ ∃ path, t.path? root tag = some path) ∧
      (t.path? root tag = none → t.globalFrame tag root = .error (.notInside tag root)) ∧
      (∀ m, t.rootToLocal root tag = .ok m ↔ ∃ path steps, t.path? root tag = some path ∧
        path.tail.reverse.mapM t.inward? = some steps ∧ steps.foldl .combine .identity = m) ∧
      ∀ e, t.rootToLocal root tag = .error e ↔ t.Obstacle root tag tag e) ∧
    ∀ p, t.hitTest p root = some tag → ∃ path m, t.path? root tag = some path ∧
      t.rootToLocal root tag = .ok m ∧
      (∀ hover : HoverTracker, (hover.update t root p).2.path = path) ∧
      ∀ (touches : TouchTracker α) pointer kind at_, touches.root = root →
        let r := (touches.down t pointer kind p at_).1
        r.target = some tag ∧ r.toTarget = m ∧ r.location = m.applyToPoint p := by
  have wf := ht.wellFormed
  refine ⟨wf.exists_path?_iff, fun path => wf.path?_leads, fun hroot => ?_, fun hroot htag => ?_,
    fun hroot htag => ?_, fun p hhit => ?_⟩
  · exact error_of_ascent (ascent_of_not_root hroot)
  · exact error_of_ascent (ascent_of_not_tag hroot htag)
  · obtain ⟨r, hr⟩ := exists_handle_iff.1 hroot
    obtain ⟨h, hh⟩ := exists_handle_iff.1 htag
    obtain ⟨hframe, hnone⟩ := wf.globalFrame_iff hr hh
    exact ⟨hframe, hnone, fun m => wf.rootToLocal_eq_ok_iff hr hh, fun e =>
      wf.rootToLocal_eq_error_iff hr hh⟩
  · obtain ⟨path, m, hpath, hm⟩ := wf.exists_of_hitTest hhit
    refine ⟨path, m, hpath, hm, fun hover => ?_, fun touches pointer kind at_ hroot => ?_⟩
    · rw [HoverTracker.update, hhit, Option.bind_some, hpath]
      rfl
    · subst hroot
      rw [TouchTracker.down_fst]
      exact Touch.begin_of_hit hhit hm _ _ _ _

/-- The view behind the other one is flattened to a point, and there is a view in it. -/
def flattened : Tree Rat :=
  [.create ⟨4⟩ .view, .insert ⟨4⟩ ⟨3⟩ 0, .setTransform ⟨3⟩ (.scale 0 0)].foldl Tree.after overlap

/-- There is a path to what is in the flat view, but no map. There are both to what is hit. -/
theorem flattened_walks_agree : flattened.Reachable ∧
    (∃ path, flattened.path? ⟨1⟩ ⟨4⟩ = some path ∧ path.Nodup) ∧
    flattened.Obstacle ⟨1⟩ ⟨4⟩ ⟨4⟩ (.singular ⟨3⟩) ∧
    ∃ path m, flattened.path? ⟨1⟩ ⟨2⟩ = some path ∧ flattened.rootToLocal ⟨1⟩ ⟨2⟩ = .ok m := by
  have hreach : flattened.Reachable := ((Reachable.empty.foldl _).foldl _).foldl _
  have hpath : flattened.path? ⟨1⟩ ⟨4⟩ = some [⟨1⟩, ⟨3⟩, ⟨4⟩] := by cbv
  have hmap : flattened.rootToLocal ⟨1⟩ ⟨4⟩ = .error (.singular ⟨3⟩) := by cbv
  have hhit : flattened.hitTest ⟨40, 40⟩ ⟨1⟩ = some ⟨2⟩ := by cbv
  have hroot : flattened.contains ⟨1⟩ = true := by cbv
  have htag : flattened.contains ⟨4⟩ = true := by cbv
  obtain ⟨-, hleads, -, -, hinside, -⟩ := hreach.walks_agree ⟨1⟩ ⟨4⟩
  obtain ⟨path, m, hpath₂, hm, -⟩ := (hreach.walks_agree ⟨1⟩ ⟨2⟩).2.2.2.2.2 _ hhit
  exact ⟨hreach, ⟨_, hpath, (hleads _ hpath).2.2.2⟩, ((hinside hroot htag).2.2.2 _).1 hmap,
    path, m, hpath₂, hm⟩

end ViewHost.Tree
