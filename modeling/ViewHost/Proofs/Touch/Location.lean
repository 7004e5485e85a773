import Mathlib
import ViewHost.Proofs.Touch.Cancelling
import ViewHost.Proofs.Touch.Scene
import ViewHost.Proofs.Tree.Walks

/-!
# Where touches are

Whoever hears the calls of a tracker can tell where its touches are without looking into it. Of
each pointer it is enough to remember the root in force when the pointer went down last, the view
that was hit, the trees that its calls have looked at since, and the last point. The place in the
target's space is given by the latest of these trees in which the way to the target is found, even
when the target has been away in the meantime.
-/

namespace ViewHost

variable {α : Type}

/-! ## What an observer knows -/

namespace TouchCall

/-- The tree that a call looks at. -/
def tree? : TouchCall α → Option (Tree α)
  | down tree .. | move tree .. | up tree .. => some tree
  | cancel .. | setRoot _ | flush => none

/-- The time of a call. Calls without one tell of no touch. -/
def time : TouchCall α → Timestamp
  | down _ _ _ _ at_ | move _ _ _ at_ | up _ _ _ at_ | cancel _ at_ => at_
  | setRoot _ | flush => .zero

end TouchCall

/-- The last contact of a pointer, as the calls have it. -/
structure Track (α : Type) where
  /-- The root in force when the pointer went down. -/
  root : Tag
  /-- The view that was hit. -/
  target : Option Tag
  /-- The trees that the calls of the pointer have looked at since, latest first. -/
  trees : List (Tree α)
  /-- The point reported last. -/
  point : Vec2 α

namespace Track

variable [Scalar α]

/-- The contact as the pointer goes down. -/
def begun (root : Tag) (tree : Tree α) (point : Vec2 α) : Track α :=
  ⟨root, tree.hitTest point root, [tree], point⟩

omit [Scalar α] in
/-- The contact once a tree has been looked at for another point. -/
def seen (c : Track α) (tree : Tree α) (point : Vec2 α) : Track α :=
  { c with trees := tree :: c.trees, point := point }

/-- The map into the target's space that is found in a tree. -/
def mapIn (c : Track α) (tree : Tree α) : Option (Transform α) :=
  c.target.bind fun target => (tree.rootToLocal c.root target).toOption

/-- The map into the target's space from the latest of the trees in which it is found, and the
identity if there is no target. -/
def map? (c : Track α) : Option (Transform α) :=
  match c.target with
  | none => some .identity
  | some _ => c.trees.findSome? c.mapIn

end Track

/-- What an observer knows of the contacts from the calls alone. -/
structure Lookout (α : Type) where
  /-- The root in force. -/
  root : Tag
  /-- The last contact of each pointer. -/
  contacts : PointerId → Option (Track α)

namespace Lookout

variable [Scalar α]

/-- What is known after a call. -/
def after (w : Lookout α) : TouchCall α → Lookout α
  | .down tree p _ point _ =>
    { w with contacts := Function.update w.contacts p (some (.begun w.root tree point)) }
  | .move tree p point _ | .up tree p point _ =>
    { w with contacts := Function.update w.contacts p ((w.contacts p).map (·.seen tree point)) }
  | .setRoot root => { w with root := root }
  | .cancel .. | .flush => w

/-- What is known of a tracker after some calls. -/
def of (root : Tag) (calls : List (TouchCall α)) : Lookout α :=
  calls.foldl after ⟨root, fun _ => none⟩

end Lookout

/-- The touch is where the contact has it. -/
structure Touch.Follows [Scalar α] (r : Touch α) (c : Track α) : Prop where
  root : r.root = c.root
  target : r.target = c.target
  rootLocation : r.rootLocation = c.point
  toTarget : r.toTarget = c.map?.getD .identity
  location : r.location = (c.map?.getD .identity).applyToPoint c.point

variable [Scalar α]

/-! ## Single touches -/

namespace Track

variable {c : Track α} {tree : Tree α} {point : Vec2 α}

theorem map?_seen (c : Track α) (tree : Tree α) (point : Vec2 α) :
    (c.seen tree point).map? = (c.mapIn tree).or c.map? := by
  cases htarget : c.target with
  | none => simp [map?, mapIn, seen, htarget]
  | some target =>
    have hmapIn : (c.seen tree point).mapIn = c.mapIn := rfl
    simp only [map?, hmapIn, htarget]
    rw [seen, List.findSome?_cons, htarget]
    cases c.mapIn tree <;> rfl

/-- What is hit is found in the tree. -/
theorem isSome_map?_begun {root : Tag} (wf : tree.WellFormed) :
    (begun root tree point).map?.isSome := by
  cases hhit : tree.hitTest point root with
  | none => simp [map?, begun, hhit]
  | some target =>
    obtain ⟨path, m, -, hm⟩ := wf.exists_of_hitTest hhit
    simp [map?, mapIn, begun, hhit, hm, Except.toOption]

end Track

namespace Touch

variable {r : Touch α} {c : Track α}

omit [Scalar α] in
theorem updates_eq_filterMap (r? : Option (Touch α)) :
    updates r? = r?.toList.filterMap (·.event?) := by
  cases r? with
  | none => rfl
  | some r => cases htarget : r.target <;> simp [updates, event?, htarget]

/-- A touch begins where the contact begins. -/
theorem follows_begin (id : TouchId) (root : Tag) (tree : Tree α) (p : PointerId)
    (kind : PointerKind) (point : Vec2 α) (at_ : Timestamp) :
    (begin id root tree p kind point at_).Follows (.begun root tree point) := by
  have hmap : (begin id root tree p kind point at_).toTarget =
      (Track.begun root tree point).map?.getD .identity := by
    simp only [begin, TouchTracker.down, TouchTracker.issueId, TouchTracker.new,
      TouchTracker.touch?, List.lookup_nil, Option.isSome_none, Bool.false_eq_true, if_false,
      Track.map?, Track.begun]
    cases hhit : tree.hitTest point root with
    | none => rfl
    | some target =>
      simp only [Option.map_some, List.findSome?_cons, List.findSome?_nil, Track.mapIn,
        Option.bind_some]
      cases tree.rootToLocal root target <;> rfl
  exact ⟨rfl, rfl, rfl, hmap, congrArg (·.applyToPoint point) hmap⟩

/-- The map that was found last is kept where none is found. -/
theorem Follows.relocate (hr : r.Follows c) (phase : TouchPhase) (tree : Tree α) (point : Vec2 α)
    (at_ : Timestamp) :
    (({ r with phase := phase } : Touch α).relocate tree point at_).Follows
      (c.seen tree point) := by
  have hmapIn : ({ r with phase := phase } : Touch α).mapIn tree = c.mapIn tree := by
    rw [mapIn, Track.mapIn, hr.root, hr.target]
  have hmap : (({ r with phase := phase } : Touch α).relocate tree point at_).toTarget =
      (c.seen tree point).map?.getD .identity := by
    rw [toTarget_relocate, hmapIn, Track.map?_seen]
    cases c.mapIn tree with
    | none => exact hr.toTarget
    | some m => rfl
  exact ⟨hr.root, hr.target, rfl, hmap, congrArg (·.applyToPoint point) hmap⟩

end Touch

/-! ## Single calls -/

namespace TouchSession

variable {s : TouchSession α} {call : TouchCall α} {p : PointerId} {r : Touch α}

/-- A touch that is on the table after a call is the one that the call returned, or one of another
pointer that was there before. -/
theorem touch?_after_cases (hk : s.tracker.Keyed)
    (hr : (s.after call).tracker.touch? p = some r) :
    (s.reply call).record? = some r ∧ r.pointer = p ∨
      s.tracker.touch? p = some r ∧ call.isOn p = false := by
  have hown : r.pointer = p := (keyed_after hk call).pointer_eq hr
  cases hq : call.pointer? with
  | some q =>
    rw [touch?_after hk hq] at hr
    by_cases hp : p = q
    · rw [if_pos hp] at hr
      refine .inl ⟨?_, hown⟩
      rw [reply_eq hk hq]
      cases call with
      | down | move => exact hr
      | up | cancel => cases hr
      | setRoot | flush => cases hq
    · rw [if_neg hp] at hr
      refine .inr ⟨hr, decide_eq_false fun heq => hp ?_⟩
      exact Option.some.inj (heq.symm.trans hq)
  | none =>
    refine .inr ⟨?_, decide_eq_false fun heq => Option.some_ne_none p (heq.symm.trans hq)⟩
    cases call with
    | down | move | up => cases hq
    | cancel reason at_ => exact ((hk.touch?_cancel_eq_some_iff reason at_).1 hr).1
    | setRoot root => exact hr
    | flush => rwa [touch?_after_flush] at hr

/-- What a call tells is told of the touches that it cancels, as they are, and of the touch that
it returns. -/
theorem exists_told_eq (hk : s.tracker.Keyed) (call : TouchCall α) :
    ∃ gone : List (Touch α),
      (∀ d ∈ gone, s.tracker.touch? d.pointer = some d ∧ call.ends d = true) ∧
      (s.reply call).told = (gone.map (·.cancelled call.time) ++
        (s.reply call).record?.toList).filterMap (·.event?) := by
  have held : ∀ {p d}, d ∈ (s.tracker.touch? p).toList →
      s.tracker.touch? d.pointer = some d ∧ d.pointer = p := by
    intro p d hd
    rw [Option.mem_toList] at hd
    obtain rfl := hk.pointer_eq hd
    exact ⟨hd, rfl⟩
  cases call with
  | down tree p kind point at_ =>
    refine ⟨(s.tracker.touch? p).toList, fun d hd => ?_, ?_⟩
    · obtain ⟨hd, hp⟩ := held hd
      exact ⟨hd, decide_eq_true hp⟩
    · rw [reply_eq hk rfl, List.filterMap_append, ← Option.toList_map, ← Touch.updates_eq_filterMap,
        ← Touch.updates_eq_filterMap]
      rfl
  | move tree p point at_ =>
    refine ⟨[], fun d hd => absurd hd List.not_mem_nil, ?_⟩
    rw [reply_eq hk rfl]
    exact Touch.updates_eq_filterMap _
  | up tree p point at_ =>
    refine ⟨[], fun d hd => absurd hd List.not_mem_nil, ?_⟩
    rw [reply_eq hk rfl]
    exact Touch.updates_eq_filterMap _
  | cancel reason at_ =>
    refine ⟨s.tracker.chosen reason, fun d hd => ?_, ?_⟩
    · obtain ⟨hd, hreason⟩ := TouchTracker.mem_chosen_iff.1 hd
      exact ⟨hk.touch?_pointer hd, hreason⟩
    · have htold := drop_told (told_append (s := s) (u := s.after (.cancel reason at_)) rfl
        (hk.cancel_eq reason at_).2)
      simp only [reply, htold, Option.toList_none, List.append_nil, List.filterMap_map]
      rfl
  | setRoot root =>
    refine ⟨[], fun d hd => absurd hd List.not_mem_nil, ?_⟩
    exact drop_told (told_append rfl (List.append_nil _).symm)
  | flush => exact ⟨[], fun d hd => absurd hd List.not_mem_nil, drop_told (told_flush s)⟩

end TouchSession

namespace Lookout

variable {w : Lookout α} {s : TouchSession α} {call : TouchCall α} {p : PointerId} {r : Touch α}

theorem contacts_after_of_not_isOn (w : Lookout α) (hp : call.isOn p = false) :
    (w.after call).contacts p = w.contacts p := by
  have hne : call.pointer? ≠ some p := of_decide_eq_false hp
  cases call with
  | down tree q | move tree q | up tree q =>
    exact Function.update_of_ne (fun heq => hne (congrArg some heq.symm)) _ _
  | cancel | setRoot | flush => rfl

/-- What is known fits the tracker. -/
structure Watches (w : Lookout α) (t : TouchTracker α) : Prop where
  root : t.root = w.root
  keyed : t.Keyed
  follows : ∀ p r, t.touch? p = some r → ∃ c, w.contacts p = some c ∧ r.Follows c

namespace Watches

/-- A call returns a touch that is where its contact has it. -/
theorem record (h : w.Watches s.tracker) (hr : (s.reply call).record? = some r) :
    ∃ c, (w.after call).contacts r.pointer = some c ∧ r.Follows c := by
  have seen : ∀ {p : PointerId} {d : Touch α} (phase : TouchPhase) (tree : Tree α)
      (point : Vec2 α) (at_ : Timestamp), s.tracker.touch? p = some d →
      ∃ c, Function.update w.contacts p ((w.contacts p).map (·.seen tree point)) d.pointer =
        some c ∧ (({ d with phase := phase } : Touch α).relocate tree point at_).Follows c := by
    intro p d phase tree point at_ hd
    obtain ⟨c, hc, hfollows⟩ := h.follows p d hd
    refine ⟨c.seen tree point, ?_, hfollows.relocate phase tree point at_⟩
    rw [h.keyed.pointer_eq hd, Function.update_self, hc, Option.map_some]
  cases call with
  | down tree p kind point at_ =>
    rw [TouchSession.reply_eq h.keyed rfl] at hr
    obtain rfl := Option.some.inj hr
    exact ⟨_, Function.update_self .., h.root ▸ Touch.follows_begin ..⟩
  | move tree p point at_ =>
    rw [TouchSession.reply_eq h.keyed rfl] at hr
    obtain ⟨d, hd, rfl⟩ := Option.map_eq_some_iff.1 hr
    exact seen _ tree point at_ hd
  | up tree p point at_ =>
    rw [TouchSession.reply_eq h.keyed rfl] at hr
    obtain ⟨d, hd, rfl⟩ := Option.map_eq_some_iff.1 hr
    exact seen _ tree point at_ hd
  | cancel | setRoot | flush => cases hr

theorem after (h : w.Watches s.tracker) (call : TouchCall α) :
    (w.after call).Watches (s.after call).tracker where
  root := by
    cases call with
    | cancel reason at_ => exact (TouchTracker.root_cancelEach ..).trans h.root
    | setRoot root => rfl
    | flush => exact (TouchSession.settings_after (.inr rfl)).1.trans h.root
    | down tree p | move tree p | up tree p =>
      exact (TouchSession.settings_after (.inl ⟨p, rfl⟩)).1.trans h.root
  keyed := TouchSession.keyed_after h.keyed call
  follows p r hr := by
    obtain ⟨hrecord, rfl⟩ | ⟨hr, hp⟩ := TouchSession.touch?_after_cases h.keyed hr
    · exact h.record hrecord
    · rw [w.contacts_after_of_not_isOn hp]
      exact h.follows p r hr

end Watches

theorem of_append (root : Tag) (calls : List (TouchCall α)) (call : TouchCall α) :
    of root (calls ++ [call]) = (of root calls).after call :=
  List.foldl_concat ..

theorem watches_run (root : Tag) (epsilon : α) (calls : List (TouchCall α)) :
    (of root calls).Watches ((TouchSession.start root epsilon).run calls).tracker := by
  induction calls using List.reverseRecOn with
  | nil =>
    refine ⟨rfl, (TouchSession.sound_start root epsilon).accounts.keyed, fun p r hr => ?_⟩
    simp [TouchSession.run, TouchSession.start, TouchTracker.new, TouchTracker.touch?] at hr
  | append_singleton calls call ih =>
    rw [of_append, TouchSession.run, List.foldl_concat]
    exact ih.after call

/-- On trees that are in order a contact has a map from the beginning. -/
theorem isSome_map? {root : Tag} {calls : List (TouchCall α)}
    (htrees : ∀ call ∈ calls, ∀ tree ∈ call.tree?, tree.WellFormed) {c : Track α}
    (hc : (of root calls).contacts p = some c) : c.map?.isSome := by
  induction calls using List.reverseRecOn generalizing c with
  | nil => cases hc
  | append_singleton calls call ih =>
    obtain ⟨hcalls, hcall⟩ := List.forall_mem_append.1 htrees
    have hcall := hcall call (List.mem_singleton_self _)
    rw [of_append] at hc
    have seen : ∀ {q : PointerId} {tree : Tree α} {point : Vec2 α},
        Function.update (of root calls).contacts q
          (((of root calls).contacts q).map (·.seen tree point)) p = some c →
        c.map?.isSome := by
      intro q tree point hc
      by_cases hp : p = q
      · subst hp
        rw [Function.update_self, Option.map_eq_some_iff] at hc
        obtain ⟨d, hd, rfl⟩ := hc
        -- a map that was found once is not lost
        rw [Track.map?_seen, Option.isSome_or, ih hcalls hd, Bool.or_true]
      · rw [Function.update_of_ne hp] at hc
        exact ih hcalls hc
    cases call with
    | down tree q kind point at_ =>
      simp only [after] at hc
      by_cases hp : p = q
      · subst hp
        rw [Function.update_self] at hc
        obtain rfl := Option.some.inj hc
        exact Track.isSome_map?_begun (hcall tree rfl)
      · rw [Function.update_of_ne hp] at hc
        exact ih hcalls hc
    | move tree q point at_ => exact seen hc
    | up tree q point at_ => exact seen hc
    | cancel | setRoot | flush => exact ih hcalls hc

end Lookout

/-! ## Runs -/

namespace TouchSession

/-- At any time of any run the touches on the table are where the calls made for them so far have
them, and so is each touch that the next call returns. That call leaves the touches that it does
not end on the table, with the root and the target they began with. What it tells is told of the
touch that it returns and of touches that it ends, which are cancelled where they were. A contact
has a map from its beginning on if the trees are ones that commands can lead to. -/
theorem locations_follow_calls (root : Tag) (epsilon : α) (calls : List (TouchCall α)) :
    let s := (start root epsilon).run calls
    let w := Lookout.of root calls
    (∀ p r, s.tracker.touch? p = some r →
      r.pointer = p ∧ ∃ c, w.contacts p = some c ∧ r.Follows c) ∧
    (∀ call : TouchCall α,
      (∀ r, (s.reply call).record? = some r →
        ∃ c, (w.after call).contacts r.pointer = some c ∧ r.Follows c) ∧
      (∀ p r, s.tracker.touch? p = some r → call.ends r = false →
        ∃ r', (s.after call).tracker.touch? p = some r' ∧ r'.Continues r) ∧
      ∃ gone : List (Touch α),
        (∀ d ∈ gone, s.tracker.touch? d.pointer = some d ∧ call.ends d = true) ∧
        (s.after call).told = s.told ++ (gone.map (·.cancelled call.time) ++
          (s.reply call).record?.toList).filterMap (·.event?)) ∧
    ((∀ call ∈ calls, ∀ tree ∈ call.tree?, tree.Reachable) →
      ∀ p c, w.contacts p = some c → c.map?.isSome) := by
  intro s w
  have h : w.Watches s.tracker := Lookout.watches_run root epsilon calls
  refine ⟨fun p r hr => ⟨h.keyed.pointer_eq hr, h.follows p r hr⟩, fun call => ⟨fun r => h.record,
    fun p r hr hends => ⟨_, touch?_after_of_not_ends h.keyed hr hends, call.continues_carried ..⟩,
    ?_⟩, fun htrees p c hc => ?_⟩
  · obtain ⟨gone, hgone, htold⟩ := exists_told_eq h.keyed call
    exact ⟨gone, hgone, htold ▸ told_after s call⟩
  · refine Lookout.isSome_map? (fun call hcall tree htree => ?_) hc
    exact (htrees call hcall tree htree).wellFormed

/-- A view in another one. -/
def home : Tree Rat :=
  [.create ⟨1⟩ .view, .setFrame ⟨1⟩ ⟨0, 0, 100, 100⟩, .create ⟨2⟩ .view,
    .setFrame ⟨2⟩ ⟨10, 10, 50, 50⟩, .insert ⟨2⟩ ⟨1⟩ 0].foldl Tree.after .empty

/-- The inner view is taken out of the tree. -/
def away : Tree Rat := home.after (.detach ⟨2⟩)

/-- The inner view is put back in another place. -/
def back : Tree Rat :=
  [.setFrame ⟨2⟩ ⟨20, 10, 50, 50⟩, .insert ⟨2⟩ ⟨1⟩ 0].foldl Tree.after away

/-- A finger goes down on the inner view, which is there and not there in turn. Meanwhile the
tracker gets another root. -/
def strayed : List (TouchCall Rat) :=
  [.down home ⟨7⟩ .touch ⟨30, 30⟩ .zero, .setRoot ⟨2⟩, .move away ⟨7⟩ ⟨40, 30⟩ .zero,
    .move back ⟨7⟩ ⟨50, 30⟩ .zero, .move away ⟨7⟩ ⟨60, 30⟩ .second]

/-- The touch is told by the way to its target from its own root, as it was last. -/
theorem strayed_location :
    let s := (start ⟨1⟩ 0).run strayed
    (s.told.map (·.location)) = [⟨20, 20⟩, ⟨30, 20⟩, ⟨30, 20⟩, ⟨40, 20⟩] ∧
    (∀ call ∈ strayed, ∀ tree ∈ call.tree?, tree.Reachable) ∧
    ∃ c m, (Lookout.of ⟨1⟩ strayed).contacts ⟨7⟩ = some c ∧ c.root = ⟨1⟩ ∧ c.map? = some m ∧
      (s.tracker.touch? ⟨7⟩).map (·.location) = some (m.applyToPoint ⟨60, 30⟩) := by
  intro s
  have htrees : ∀ call ∈ strayed, ∀ tree ∈ call.tree?, tree.Reachable := by
    have hhome : home.Reachable := Tree.Reachable.empty.foldl _
    have haway : away.Reachable := hhome.after _
    have hback : back.Reachable := haway.foldl _
    simp [strayed, TouchCall.tree?, hhome, haway, hback]
  have hwhole : (s.tracker.touch? ⟨7⟩).map (fun r => (r.root, r.rootLocation)) =
      some (⟨1⟩, ⟨60, 30⟩) := by cbv
  obtain ⟨r, hr, heq⟩ := Option.map_eq_some_iff.1 hwhole
  obtain ⟨hroot, hpoint⟩ := Prod.mk.inj heq
  obtain ⟨htable, -, hmap⟩ := locations_follow_calls ⟨1⟩ 0 strayed
  obtain ⟨-, c, hc, hfollows⟩ := htable ⟨7⟩ r hr
  obtain ⟨m, hm⟩ := Option.isSome_iff_exists.1 (hmap htrees ⟨7⟩ c hc)
  refine ⟨by cbv, htrees, c, m, hc, hfollows.root ▸ hroot, hm, ?_⟩
  rw [hr, Option.map_some, hfollows.location, hm, ← hfollows.rootLocation, hpoint]
  rfl

end TouchSession

end ViewHost
