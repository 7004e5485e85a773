import Mathlib
import ViewHost.Proofs.Touch.Scene
import ViewHost.Proofs.Tree.Walks

/-!
# Touches that outlive their targets

A view that a touch hit may be destroyed while the pointer is down. The touch goes on, and
its moves and its end are told by the map into the view's space that was found last. A
touch knows its target by the tag alone, though, and looks for the tag again with every
move. So this holds for as long as the touch's root has no path to a view with the tag, as
it has none before such a view is created again.
-/

namespace ViewHost

variable {α : Type}

/-- A pointer goes down on a view, and the view is destroyed while it is down. -/
structure TargetLoss (α : Type) where
  /-- The scene as the pointer goes down. -/
  scene : TouchScene α
  pointer : PointerId
  kind : PointerKind
  point : Vec2 α
  at_ : Timestamp
  /-- The view that is hit. -/
  target : Tag
  /-- What happens until the view is destroyed. -/
  before : List (TouchTurn α)
  /-- The command by which the view is destroyed. -/
  command : Command α
  /-- What happens from then on. -/
  later : List (TouchTurn α)

namespace Touch

variable [Scalar α] {r : Touch α} {tree : Tree α} {target : Tag}

theorem mapIn_eq_none (htarget : r.target = some target) (hpath : tree.path? r.root target = none) :
    r.mapIn tree = none := by
  rw [mapIn, htarget, Option.bind_some]
  cases hway : tree.ascent r.root target with
  | error e => rw [(Tree.error_of_ascent hway).2, Except.toOption]
  | ok way =>
    have harrived : ¬ way.arrived := fun harrived =>
      Option.some_ne_none _ (((Tree.path?_eq_some hway).2 ⟨harrived, rfl⟩).symm.trans hpath)
    cases hmap : tree.rootToLocal r.root target with
    | error e => rfl
    | ok m =>
      rw [Tree.rootToLocal_eq_gather hway, Tree.gather_eq_ok] at hmap
      exact (harrived hmap.1).elim

end Touch

namespace TargetLoss

variable [Scalar α]

/-- The touch as it begins. -/
def touch (x : TargetLoss α) : Touch α :=
  (x.scene.session.tracker.down x.scene.tree x.pointer x.kind x.point x.at_).1

/-- The scene once the pointer is down. -/
def held (x : TargetLoss α) : TouchScene α := x.scene.after (.down x.pointer x.kind x.point x.at_)

/-- The scene just before the target is destroyed. -/
def beforeLoss (x : TargetLoss α) : TouchScene α := x.held.run x.before

/-- The scene just after the target is destroyed. -/
def afterLoss (x : TargetLoss α) : TouchScene α := x.beforeLoss.after (.edit x.command)

/-- The scene in the end. -/
def last (x : TargetLoss α) : TouchScene α := x.afterLoss.run x.later

/-- The map into the target's space that was found last before the target was destroyed:
as the pointer went down, or as it moved. -/
def known? (x : TargetLoss α) : Option (Transform α) :=
  ((x.touch.mapIn x.scene.tree).toList ++ x.held.found x.touch x.before).getLast?

/-- The target is hit, then there until the command, and gone after it. Nothing that happens
ends the touch. -/
structure Valid (x : TargetLoss α) : Prop where
  reachable : x.scene.Reachable
  hits : x.touch.target = some x.target
  there : x.beforeLoss.tree.contains x.target = true
  gone : x.afterLoss.tree.contains x.target = false
  lasts : ∀ turn ∈ x.before ++ x.later, turn.ends x.touch = false

/-- The root of the touch has no path to a view with the target's tag, at no time after the
target is destroyed. -/
def Unfound (x : TargetLoss α) : Prop :=
  ∀ k, (x.afterLoss.run (x.later.take k)).tree.path? x.touch.root x.target = none

variable {x : TargetLoss α}

theorem touch?_held (hkeyed : x.scene.session.tracker.Keyed) :
    x.held.touch? x.pointer = some x.touch :=
  (TouchTracker.touch?_down hkeyed).trans (if_pos rfl)

/-- Where a view is hit, the map into its space is found. -/
theorem mapIn_scene (hscene : x.scene.WellFormed) (hhits : x.touch.target = some x.target) :
    x.touch.mapIn x.scene.tree = some x.touch.toTarget := by
  let root := x.scene.session.tracker.root
  have hbegin : x.touch =
      Touch.begin x.touch.id root x.scene.tree x.pointer x.kind x.point x.at_ :=
    TouchTracker.down_fst _
  have hroot : x.touch.root = root := by
    rw [hbegin]
    rfl
  have hhit : x.scene.tree.hitTest x.point root = some x.target := by
    rw [hbegin] at hhits
    exact hhits
  obtain ⟨path, m, -, hm⟩ := hscene.tree.exists_of_hitTest hhit
  obtain ⟨-, hmap, -⟩ := Touch.begin_of_hit hhit hm x.touch.id x.pointer x.kind x.at_
  rw [← hbegin] at hmap
  rw [Touch.mapIn, hhits, hroot, hmap, Option.bind_some, hm]
  rfl

/-- A view with the target's tag is found only once it has been created again. -/
theorem Valid.unfound (hx : x.Valid) (hnew : ∀ kind, .edit (.create x.target kind) ∉ x.later) :
    x.Unfound := by
  intro k
  have hscene : x.afterLoss.WellFormed := ((hx.reachable.wellFormed.after _).run _).after _
  have hout : (x.afterLoss.run (x.later.take k)).tree.contains x.target = false :=
    hscene.not_contains_run (fun kind hmem => hnew kind (List.mem_of_mem_take hmem)) hx.gone
  cases hpath : (x.afterLoss.run (x.later.take k)).tree.path? x.touch.root x.target with
  | none => rfl
  | some path =>
    obtain ⟨-, h, -, hh⟩ := Tree.handles_of_path? hpath
    exact absurd (Tree.exists_handle_iff.2 ⟨h, hh⟩) (Bool.not_eq_true _ ▸ hout)

/-- Once the view that a touch hit has been destroyed, the moves and the end of the touch are
told by the map into its space that was found last before, as long as the touch's root has no
path to a view with its tag. There is none unless such a view is created again. -/
theorem Valid.reports_last_known (hx : x.Valid) :
    ∃ m, x.known? = some m ∧ (x.Unfound → x.last.Reports x.touch m) ∧
      ((∀ kind, .edit (.create x.target kind) ∉ x.later) → x.Unfound) := by
  obtain ⟨hbefore, hlater⟩ := List.forall_mem_append.1 hx.lasts
  have hscene := hx.reachable.wellFormed
  have hheld : x.held.WellFormed := hscene.after _
  have hafter : x.afterLoss.WellFormed := (hheld.run _).after _
  obtain ⟨r, hr, hcont, hmap⟩ := hheld.touch?_run (touch?_held hscene.keyed) hbefore
  refine ⟨r.toTarget, ?_, fun hunfound => ?_, hx.unfound⟩
  · rw [known?, mapIn_scene hscene hx.hits, hmap, Option.toList_some, List.singleton_append,
      List.getLast?_cons]
  · have hnone : ∀ k, x.touch.mapIn (x.afterLoss.run (x.later.take k)).tree = none := fun k =>
      Touch.mapIn_eq_none hx.hits (hunfound k)
    have hfound : x.afterLoss.found r x.later = [] :=
      (TouchScene.found_congr hcont _ _).trans (TouchScene.found_eq_nil hnone)
    have hends : ∀ turn ∈ x.later, turn.ends r = false := fun turn hturn =>
      (hcont.ends_eq turn).trans (hlater turn hturn)
    obtain ⟨r', hr', hcont', hmap'⟩ := hafter.touch?_run hr hends
    have hlast := hnone x.later.length
    rw [List.take_length] at hlast
    have hreports := (hafter.run x.later).reports hr' (hcont'.trans hcont)
    rwa [hlast, hmap', hfound] at hreports

/-- A view is hit, moved with the pointer on it, and destroyed. -/
def outlived (later : List (TouchTurn Rat)) : TargetLoss Rat where
  scene := (TouchScene.start ⟨1⟩ 0).run [.edit (.create ⟨1⟩ .view),
    .edit (.setFrame ⟨1⟩ ⟨0, 0, 100, 100⟩), .edit (.create ⟨2⟩ .view),
    .edit (.setFrame ⟨2⟩ ⟨0, 0, 50, 50⟩), .edit (.insert ⟨2⟩ ⟨1⟩ 0)]
  pointer := ⟨1⟩
  kind := .touch
  point := ⟨20, 20⟩
  at_ := .zero
  target := ⟨2⟩
  before := [.edit (.setFrame ⟨2⟩ ⟨10, 10, 50, 50⟩), .move ⟨1⟩ ⟨25, 25⟩ .zero]
  command := .remove ⟨2⟩
  later := later

theorem valid_outlived (commands : List (Command Rat)) : (outlived (commands.map .edit)).Valid where
  reachable := ⟨_, _, _, rfl⟩
  hits := by cbv
  there := by cbv
  gone := by cbv
  lasts turn hturn := by
    obtain hturn | hturn := List.mem_append.1 hturn
    · obtain rfl | hturn := List.mem_cons.1 hturn
      · rfl
      · cases List.mem_singleton.1 hturn
        rfl
    · obtain ⟨c, -, rfl⟩ := List.mem_map.1 hturn
      rfl

theorem place_of_known? {later : List (TouchTurn Rat)} {m : Transform Rat}
    (hm : (outlived later).known? = some m) : m.applyToPoint ⟨30, 30⟩ = ⟨20, 20⟩ := by
  have hplace : (outlived later).known?.map (·.applyToPoint ⟨30, 30⟩) = some ⟨20, 20⟩ := by cbv
  rw [hm] at hplace
  exact Option.some.inj hplace

/-- Another view is created in the place of the one destroyed, and the touch does not mind. -/
theorem outlived_reports_last_known :
    let x := outlived ([.create ⟨3⟩ .view, .insert ⟨3⟩ ⟨1⟩ 0].map .edit)
    x.Valid ∧ (∀ kind, .edit (.create x.target kind) ∉ x.later) ∧
      ∃ m, x.known? = some m ∧ m.applyToPoint ⟨30, 30⟩ = ⟨20, 20⟩ ∧ x.last.Reports x.touch m := by
  intro x
  have hx : x.Valid := valid_outlived _
  have hnew : ∀ kind, .edit (.create x.target kind) ∉ x.later := by
    intro kind hmem
    simp [x, outlived] at hmem
  obtain ⟨m, hm, hreports, hunfound⟩ := hx.reports_last_known
  exact ⟨hx, hnew, m, hm, place_of_known? hm, hreports (hunfound hnew)⟩

/-- A view with the tag of the one destroyed is created, and the touch is told by its place. -/
theorem not_last_known_if_created_again : ¬ ∀ x : TargetLoss Rat, x.Valid →
    ∃ m, x.known? = some m ∧ x.last.Reports x.touch m := by
  intro h
  let x := outlived
    ([.create ⟨2⟩ .view, .setFrame ⟨2⟩ ⟨0, 0, 50, 50⟩, .insert ⟨2⟩ ⟨1⟩ 0].map .edit)
  obtain ⟨m, hm, hreports⟩ := h x (valid_outlived _)
  have htold : (x.last.session.reply (.move x.last.tree x.touch.pointer ⟨30, 30⟩ .zero)).record?.map
      (·.location) = some ⟨30, 30⟩ := by cbv
  obtain ⟨⟨r, -, -, hlocation, hreply⟩, -⟩ := hreports ⟨30, 30⟩ .zero
  rw [hreply, Option.map_some, hlocation, place_of_known? hm] at htold
  exact absurd htold (by decide)

end TargetLoss

end ViewHost
