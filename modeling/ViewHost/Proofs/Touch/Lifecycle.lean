import ViewHost.Proofs.Touch.Table

/-!
# Lives of touches

The updates of one touch tell its life: it begins, moves or rests any number of
times, and ends or is cancelled at most once, after which there is nothing more to
tell. A tracker interleaves the lives of many touches. The invariant below fits
its table and what it has told to the touches that began, and is kept by the
three things that happen to a table: a touch is put on it, changed, or taken off.
-/

namespace ViewHost

variable {α : Type}

/-- The updates tell of a touch with this target from its beginning on, up to its
end if it is over. -/
inductive Lifecycle (target : Tag) : Bool → List (TouchEvent α) → Prop where
  | began {e : TouchEvent α} (he : e.phase = .began) (ht : e.target = target) :
      Lifecycle target false [e]
  | moved {es : List (TouchEvent α)} {e : TouchEvent α} (hes : Lifecycle target false es)
      (he : e.phase = .moved ∨ e.phase = .stationary) (ht : e.target = target) :
      Lifecycle target false (es ++ [e])
  | ended {es : List (TouchEvent α)} {e : TouchEvent α} (hes : Lifecycle target false es)
      (he : e.phase = .ended ∨ e.phase = .cancelled) (ht : e.target = target) :
      Lifecycle target true (es ++ [e])

/-- The updates tell of a touch from its beginning on, unless it hit nothing, when
there is nothing to tell. -/
def Lived : Option Tag → Bool → List (TouchEvent α) → Prop
  | none, _, es => es = []
  | some target, isOver, es => Lifecycle target isOver es

namespace Touch

/-- A touch at a later time: what it was when it began stays. -/
structure Continues (r d : Touch α) : Prop where
  id : r.id = d.id
  pointer : r.pointer = d.pointer
  root : r.root = d.root
  target : r.target = d.target

theorem Continues.refl (r : Touch α) : r.Continues r := ⟨rfl, rfl, rfl, rfl⟩

variable {r d : Touch α} {es : List (TouchEvent α)}

theorem Continues.selectedBy_eq (hr : r.Continues d) (reason : CancelReason) :
    r.selectedBy reason = d.selectedBy reason := by
  cases reason <;> simp [selectedBy, hr.pointer, hr.root]

/-- Moving and resting change neither identifier nor pointer, root and target. -/
theorem Continues.relocate [Scalar α] (hr : r.Continues d) (phase : TouchPhase) (tree : Tree α)
    (point : Vec2 α) (at_ : Timestamp) :
    (({ r with phase := phase } : Touch α).relocate tree point at_).Continues d :=
  ⟨hr.id, hr.pointer, hr.root, hr.target⟩

/-- The update of a touch is filed under the touch's own identifier. -/
theorem filter_event? (r : Touch α) (i : TouchId) :
    r.event?.toList.filter (·.identifier = i) = if r.id = i then r.event?.toList else [] := by
  cases htarget : r.target with
  | none => simp [event?, htarget]
  | some target => by_cases hi : r.id = i <;> simp [event?, htarget, hi]

theorem identifier_of_mem_event? {e : TouchEvent α} (he : e ∈ r.event?.toList) :
    e.identifier = r.id := by
  cases htarget : r.target with
  | none => simp [event?, htarget] at he
  | some target =>
    simp only [event?, htarget, Option.map_some, Option.toList_some, List.mem_singleton] at he
    rw [he]

theorem lived_began (hphase : r.phase = .began) : Lived r.target false r.event?.toList := by
  cases htarget : r.target with
  | none => simp [event?, htarget, Lived]
  | some target =>
    simp only [event?, htarget, Option.map_some, Option.toList_some]
    exact .began hphase rfl

theorem lived_moved (hes : Lived d.target false es) (htarget : r.target = d.target)
    (hphase : r.phase = .moved ∨ r.phase = .stationary) :
    Lived d.target false (es ++ r.event?.toList) := by
  rw [← htarget] at hes ⊢
  cases htarget : r.target with
  | none =>
    rw [htarget] at hes
    simpa [event?, htarget, Lived] using hes
  | some target =>
    rw [htarget] at hes
    simp only [event?, htarget, Option.map_some, Option.toList_some]
    exact .moved hes hphase rfl

theorem lived_over (hes : Lived d.target false es) (htarget : r.target = d.target)
    (hphase : r.phase = .ended ∨ r.phase = .cancelled) :
    Lived d.target true (es ++ r.event?.toList) := by
  rw [← htarget] at hes ⊢
  cases htarget : r.target with
  | none =>
    rw [htarget] at hes
    simpa [event?, htarget, Lived] using hes
  | some target =>
    rw [htarget] at hes
    simp only [event?, htarget, Option.map_some, Option.toList_some]
    exact .ended hes hphase rfl

end Touch

namespace TouchTracker

variable {t t' : TouchTracker α} {downs : List (Touch α)} {told : List (TouchEvent α)}
variable {p : PointerId} {r r' d : Touch α}

/-- The table and what has been told fit the touches that began. -/
structure Accounts (downs : List (Touch α)) (told : List (TouchEvent α)) (t : TouchTracker α) :
    Prop where
  keyed : t.Keyed
  ids : (downs.map (·.id)).Nodup
  held : ∀ r ∈ t.touches, ∃ d ∈ downs, r.Continues d
  lived : ∀ d ∈ downs, ∃ isOver : Bool, (isOver ↔ d.id ∉ t.touches.map (·.id)) ∧
    Lived d.target isOver (told.filter (·.identifier = d.id))
  known : ∀ e ∈ told, ∃ d ∈ downs, d.id = e.identifier

namespace Accounts

theorem congr (h : Accounts downs told t) (hactive : t'.active = t.active) :
    Accounts downs told t' where
  keyed := ⟨hactive ▸ h.keyed.nodup, hactive ▸ h.keyed.own⟩
  ids := h.ids
  held := by simpa only [touches, hactive] using h.held
  lived := by simpa only [touches, hactive] using h.lived
  known := h.known

theorem touch_mem (h : Accounts downs told t) (hr : t.touch? p = some r) : r ∈ t.touches :=
  h.keyed.mem_touches hr

/-- Touches on the table are told apart by their identifiers. -/
theorem eq_of_id_eq (h : Accounts downs told t) (hr : r ∈ t.touches) (hr' : r' ∈ t.touches)
    (hid : r.id = r'.id) : r = r' := by
  obtain ⟨d, hd, hrd⟩ := h.held r hr
  obtain ⟨d', hd', hrd'⟩ := h.held r' hr'
  obtain rfl : d = d' := by
    apply List.inj_on_of_nodup_map h.ids hd hd'
    rw [← hrd.id, ← hrd'.id, hid]
  obtain ⟨x, hx, rfl⟩ := mem_touches_iff.1 hr
  obtain ⟨y, hy, rfl⟩ := mem_touches_iff.1 hr'
  have hxy : x = y := by
    apply h.keyed.eq_of_mem hx hy
    rw [← h.keyed.own x hx, ← h.keyed.own y hy, hrd.pointer, hrd'.pointer]
  rw [hxy]

theorem known_append (h : Accounts downs told t) (hd : d ∈ downs) (hid : r.id = d.id) :
    ∀ e ∈ told ++ r.event?.toList, ∃ d ∈ downs, d.id = e.identifier := by
  intro e he
  rcases List.mem_append.1 he with he | he
  · exact h.known e he
  · exact ⟨d, hd, by rw [Touch.identifier_of_mem_event? he, hid]⟩

/-- What was told of a touch on the table, with one more update. -/
theorem lived_of_touch (h : Accounts downs told t) (hd : d ∈ downs) (hr : r ∈ t.touches)
    (hrd : r.Continues d) : Lived d.target false (told.filter (·.identifier = d.id)) := by
  obtain ⟨isOver, hover, hlived⟩ := h.lived d hd
  have hid : d.id ∈ t.touches.map (·.id) := List.mem_map.2 ⟨r, hr, hrd.id⟩
  cases isOver with
  | false => exact hlived
  | true => exact absurd hid (hover.1 rfl)

/-- What was told of a touch is not changed by an update of another. -/
theorem lived_of_ne (h : Accounts downs told t) (hd : d ∈ downs) (hne : r.id ≠ d.id)
    (hids : d.id ∈ t'.touches.map (·.id) ↔ d.id ∈ t.touches.map (·.id)) :
    ∃ isOver : Bool, (isOver ↔ d.id ∉ t'.touches.map (·.id)) ∧
      Lived d.target isOver ((told ++ r.event?.toList).filter (·.identifier = d.id)) := by
  rw [List.filter_append, r.filter_event?, if_neg hne, List.append_nil]
  simpa only [hids] using h.lived d hd

theorem mem_ids_release_iff (h : Accounts downs told t) (hr : t.touch? p = some r) {i : TouchId} :
    i ∈ (t.release p).touches.map (·.id) ↔ i ∈ t.touches.map (·.id) ∧ i ≠ r.id := by
  simp only [List.mem_map, mem_touches_iff, active_release, List.mem_filter, decide_eq_true_eq]
  have hentry := h.keyed.touch?_eq_some_iff.1 hr
  constructor
  · rintro ⟨_, ⟨x, ⟨hx, hne⟩, rfl⟩, rfl⟩
    refine ⟨⟨x.2, ⟨x, hx, rfl⟩, rfl⟩, fun hid => hne ?_⟩
    have hxr := h.eq_of_id_eq (mem_touches_iff.2 ⟨x, hx, rfl⟩) (h.touch_mem hr) hid
    rw [← h.keyed.own x hx, hxr, h.keyed.own _ hentry]
  · rintro ⟨⟨_, ⟨x, hx, rfl⟩, rfl⟩, hne⟩
    refine ⟨x.2, ⟨x, ⟨hx, ?_⟩, rfl⟩, rfl⟩
    rintro rfl
    exact hne (congrArg (·.2.id) (h.keyed.eq_of_mem hx hentry rfl))

/-- A touch that began is on the table still if none of the entries taken off was
its own. -/
theorem mem_ids_iff_of_filter (h : Accounts downs told t) (hd : d ∈ downs)
    {f : PointerId × Touch α → Bool} {gone : Bool} (hactive : t'.active = t.active.filter f)
    (hf : ∀ x ∈ t.active, x.2.Continues d → f x = !gone) :
    d.id ∈ t'.touches.map (·.id) ↔ d.id ∈ t.touches.map (·.id) ∧ gone = false := by
  have continues : ∀ r ∈ t.touches, r.id = d.id → r.Continues d := by
    intro r hr hid
    obtain ⟨d', hd', hrd⟩ := h.held r hr
    rwa [← List.inj_on_of_nodup_map h.ids hd' hd (hrd.id.symm.trans hid)]
  simp only [List.mem_map, mem_touches_iff, hactive, List.mem_filter]
  constructor
  · rintro ⟨_, ⟨x, ⟨hx, hkept⟩, rfl⟩, hid⟩
    have hxd := continues x.2 (mem_touches_iff.2 ⟨x, hx, rfl⟩) hid
    refine ⟨⟨x.2, ⟨x, hx, rfl⟩, hid⟩, ?_⟩
    simpa [hf x hx hxd] using hkept
  · rintro ⟨⟨_, ⟨x, hx, rfl⟩, hid⟩, rfl⟩
    have hxd := continues x.2 (mem_touches_iff.2 ⟨x, hx, rfl⟩) hid
    exact ⟨x.2, ⟨x, ⟨hx, hf x hx hxd⟩, rfl⟩, hid⟩

/-- A touch is taken off the table with its last update. -/
theorem release (h : Accounts downs told t) (hr : t.touch? p = some r) (hr' : r'.Continues r)
    (hphase : r'.phase = .ended ∨ r'.phase = .cancelled) :
    Accounts downs (told ++ r'.event?.toList) (t.release p) := by
  obtain ⟨d, hd, hrd⟩ := h.held r (h.touch_mem hr)
  have hid : r'.id = d.id := hr'.id.trans hrd.id
  refine ⟨h.keyed.release p, h.ids, fun r₂ hr₂ => ?_, fun d' hd' => ?_, h.known_append hd hid⟩
  · obtain ⟨x, hx, rfl⟩ := mem_touches_iff.1 hr₂
    exact h.held _ (mem_touches_iff.2 ⟨x, List.mem_of_mem_filter hx, rfl⟩)
  · by_cases hdd : d = d'
    · subst hdd
      refine ⟨true, ?_, ?_⟩
      · simp [h.mem_ids_release_iff hr, hrd.id]
      · rw [List.filter_append, r'.filter_event?, if_pos hid]
        exact Touch.lived_over (h.lived_of_touch hd (h.touch_mem hr) hrd)
          (hr'.target.trans hrd.target) hphase
    · have hne : r'.id ≠ d'.id := fun he =>
        hdd (List.inj_on_of_nodup_map h.ids hd hd' (hid.symm.trans he))
      refine h.lived_of_ne hd' hne ?_
      rw [h.mem_ids_release_iff hr, and_iff_left]
      exact fun he => hne (hr'.id.trans he.symm)

theorem mem_ids_hold_iff (h : Accounts downs told t) (hr : t.touch? p = some r)
    (hr' : r'.Continues r) {i : TouchId} :
    i ∈ (t.hold p r').touches.map (·.id) ↔ i ∈ t.touches.map (·.id) := by
  have hrelease := h.mem_ids_release_iff hr (i := i)
  have hmem : r.id ∈ t.touches.map (·.id) := List.mem_map.2 ⟨r, h.touch_mem hr, rfl⟩
  rw [touches, active_hold, List.map_cons, List.map_cons, List.mem_cons, hr'.id]
  rw [touches, active_release] at hrelease
  rw [hrelease]
  by_cases hi : i = r.id
  · simp [hi, hmem]
  · simp [hi]

/-- A touch on the table is changed with an update. -/
theorem hold (h : Accounts downs told t) (hr : t.touch? p = some r) (hr' : r'.Continues r)
    (hphase : r'.phase = .moved ∨ r'.phase = .stationary) :
    Accounts downs (told ++ r'.event?.toList) (t.hold p r') := by
  obtain ⟨d, hd, hrd⟩ := h.held r (h.touch_mem hr)
  have hid : r'.id = d.id := hr'.id.trans hrd.id
  have hpointer : r'.pointer = p :=
    hr'.pointer.trans (h.keyed.pointer_eq hr)
  refine ⟨h.keyed.hold hpointer, h.ids, fun r₂ hr₂ => ?_, fun d' hd' => ?_,
    h.known_append hd hid⟩
  · obtain ⟨x, hx, rfl⟩ := mem_touches_iff.1 hr₂
    rcases List.mem_cons.1 hx with rfl | hx
    · exact ⟨d, hd, hid, hr'.pointer.trans hrd.pointer, hr'.root.trans hrd.root,
        hr'.target.trans hrd.target⟩
    · exact h.held _ (mem_touches_iff.2 ⟨x, List.mem_of_mem_filter hx, rfl⟩)
  · by_cases hdd : d = d'
    · subst hdd
      refine ⟨false, ?_, ?_⟩
      · have hmem : d.id ∈ t.touches.map (·.id) :=
          List.mem_map.2 ⟨r, h.touch_mem hr, hrd.id⟩
        simpa [h.mem_ids_hold_iff hr hr'] using hmem
      · rw [List.filter_append, r'.filter_event?, if_pos hid]
        exact Touch.lived_moved (h.lived_of_touch hd (h.touch_mem hr) hrd)
          (hr'.target.trans hrd.target) hphase
    · have hne : r'.id ≠ d'.id := fun he =>
        hdd (List.inj_on_of_nodup_map h.ids hd hd' (hid.symm.trans he))
      exact h.lived_of_ne hd' hne (h.mem_ids_hold_iff hr hr')

/-- A new touch is put on the table with its first update. -/
theorem begin (h : Accounts downs told t) (hp : t.touch? p = none) (hpointer : r.pointer = p)
    (hfresh : r.id ∉ downs.map (·.id)) (hphase : r.phase = .began) :
    Accounts (downs ++ [r]) (told ++ r.event?.toList) (t.hold p r) := by
  have hactive := active_hold_of_none hp r
  have hids : ∀ i, i ∈ (t.hold p r).touches.map (·.id) ↔ i = r.id ∨ i ∈ t.touches.map (·.id) := by
    intro i
    rw [touches, hactive, List.map_cons, List.map_cons, List.mem_cons, touches]
  refine ⟨h.keyed.hold hpointer, ?_, fun r₂ hr₂ => ?_, fun d hd => ?_, fun e he => ?_⟩
  · rw [List.map_append, List.nodup_append]
    refine ⟨h.ids, List.nodup_singleton _, fun i hi j hj => ?_⟩
    rw [List.mem_singleton.1 hj]
    rintro rfl
    exact hfresh hi
  · obtain ⟨x, hx, rfl⟩ := mem_touches_iff.1 hr₂
    rcases List.mem_cons.1 (hactive ▸ hx) with rfl | hx
    · exact ⟨r, List.mem_append_right _ List.mem_cons_self, .refl r⟩
    · obtain ⟨d, hd, hrd⟩ := h.held _ (mem_touches_iff.2 ⟨x, hx, rfl⟩)
      exact ⟨d, List.mem_append_left _ hd, hrd⟩
  · rcases List.mem_append.1 hd with hd | hd
    · have hne : r.id ≠ d.id := fun he => hfresh (List.mem_map.2 ⟨d, hd, he.symm⟩)
      refine h.lived_of_ne hd hne ?_
      rw [hids, or_iff_right hne.symm]
    · obtain rfl := List.mem_singleton.1 hd
      have hnone : told.filter (·.identifier = d.id) = [] := by
        rw [List.filter_eq_nil_iff]
        intro e he
        obtain ⟨d', hd', hid⟩ := h.known e he
        have hne : d.id ≠ e.identifier := fun hc =>
          hfresh (List.mem_map.2 ⟨d', hd', hid.trans hc.symm⟩)
        simpa using hne.symm
      refine ⟨false, by simp [hids], ?_⟩
      rw [List.filter_append, hnone, List.nil_append, d.filter_event?, if_pos rfl]
      exact Touch.lived_began hphase
  · rcases List.mem_append.1 he with he | he
    · obtain ⟨d, hd, hid⟩ := h.known e he
      exact ⟨d, List.mem_append_left _ hd, hid⟩
    · have hid := Touch.identifier_of_mem_event? he
      exact ⟨r, List.mem_append_right _ List.mem_cons_self, hid.symm⟩

end Accounts

end TouchTracker

end ViewHost
