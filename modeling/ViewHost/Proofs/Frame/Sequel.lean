import Mathlib.Data.List.Nodup
import ViewHost.Proofs.Control.Course
import ViewHost.Proofs.Frame.Steps

/-!
# What a request makes of the scheduler at once

The step that a request takes before any callback is called is one of a few. Each is told
here by what it does to the observers, to their order, to the names issued and to the clock,
so that nobody who follows a run has to take the requests apart again. What comes to pass
besides these steps, callbacks that go away and are put back and the clock that is looked
at, leaves the scheduler alike.
-/

namespace ViewHost

variable {κ : Type}

namespace FrameScheduler

variable {s s' s'' : FrameScheduler κ} {id : ObserverId} {k : κ} {running : Bool}

/-- An observer but for its callback: whether it is paused, and its pause listener. -/
def standing? (s : FrameScheduler κ) (id : ObserverId) : Option (Bool × Option κ) :=
  s.observers[id]?.map fun o => (o.paused, o.onPause)

theorem isPaused?_eq (s : FrameScheduler κ) (id : ObserverId) :
    s.isPaused? id = (s.standing? id).map (·.1) := by
  simp [isPaused?, standing?, Option.map_map, Function.comp_def]

theorem onPause?_eq (s : FrameScheduler κ) (id : ObserverId) :
    s.onPause? id = (s.standing? id).bind (·.2) := by
  rw [onPause?, standing?, Option.bind_map]
  rfl

theorem standing?_modify (s : FrameScheduler κ) (id id' : ObserverId)
    (f : FrameObserver κ → FrameObserver κ) : (s.modify id f).standing? id' =
      if id = id' then s.observers[id']?.map fun o => ((f o).paused, (f o).onPause)
      else s.standing? id' := by
  rw [standing?, standing?, getElem?_modify]
  split
  · next heq => rw [heq, Option.map_map, Function.comp_def]
  · rfl

/-- What becomes of an observer in the step that a request takes at once. -/
theorem standing?_after (s : FrameScheduler κ) (r : Request κ) (id : ObserverId) :
    (s.after r).standing? id =
      match r with
      | .register _ =>
        if (⟨s.issued + 1⟩ : ObserverId) = id then some (false, none) else s.standing? id
      | .unregister id' => if id' = id then none else s.standing? id
      | .setPaused id' paused =>
        if id' = id then (s.standing? id).map fun o => (paused, o.2) else s.standing? id
      | .onPause id' k =>
        if id' = id then (s.standing? id).map fun o => (o.1, some k) else s.standing? id
      | .clearFrames => none
      | _ => s.standing? id := by
  cases r with
  | register k =>
    change ((s.add k).2.observers[id]?).map _ = _
    rw [getElem?_add, apply_ite (Option.map _)]
    rfl
  | unregister id' =>
    change ((s.remove id').2.observers[id]?).map _ = _
    rw [getElem?_remove, apply_ite (Option.map _)]
    rfl
  | setPaused id' paused =>
    change (s.modify id' _).standing? id = _
    dsimp only
    rw [standing?_modify, standing?, Option.map_map]
    rfl
  | onPause id' k =>
    change (s.modify id' _).standing? id = _
    dsimp only
    rw [standing?_modify, standing?, Option.map_map]
    rfl
  | clearFrames =>
    change ((s.clear).observers[id]?).map _ = _
    simp [clear]
  | tick now =>
    simp only [after, alone, World.commit]
    split
    · next hp =>
      rw [(pulse_eq_accepted hp).2]
      rfl
    · rfl
  | _ => rfl

/-- A pulse is accepted while the clock runs and not too soon after the last tick. -/
theorem pulse_accepted {now : Timestamp} {tick : FrameTick} (hp : s.pulse now = .accepted tick s') :
    s.running = true ∧ tick.timestamp = now ∧
      match s.lastTick with
      | none => tick.delta = s.interval
      | some last => last.nanos + s.interval.nanos ≤ now.nanos ∧
          tick.delta = if s.resumed then s.interval else now.monus last := by
  refine ⟨?_, (pulse_eq_accepted hp).1, ?_⟩
  all_goals
    rw [pulse] at hp
    split at hp
    · cases hp
  · next hrunning => simpa using hrunning
  · cases hlast : s.lastTick with
    | none =>
      simp only [hlast, accept] at hp
      cases hp
      rfl
    | some last =>
      simp only [hlast] at hp
      split at hp
      · cases hp
      · next next hadd =>
        split at hp
        · cases hp
        · next hdue =>
          cases hp
          refine ⟨?_, rfl⟩
          rw [Duration.add?, Duration.ofNanos?] at hadd
          split at hadd
          · cases hadd
            exact Nat.le_of_not_lt hdue
          · cases hadd

/-- But for a tick, the step that a request takes at once leaves the clock as it is. -/
theorem clock_after (s : FrameScheduler κ) (r : Request κ) :
    (s.after r).running = s.running ∧ (s.after r).interval = s.interval ∧
      ((∀ now, r ≠ .tick now) →
        (s.after r).lastTick = s.lastTick ∧ (s.after r).resumed = s.resumed) := by
  cases r with
  | unregister id =>
    change (s.remove id).2.running = _ ∧ (s.remove id).2.interval = _ ∧
      (_ → (s.remove id).2.lastTick = _ ∧ (s.remove id).2.resumed = _)
    rw [remove]
    split <;> exact ⟨rfl, rfl, fun _ => ⟨rfl, rfl⟩⟩
  | setPaused id paused =>
    exact ⟨running_modify .., interval_modify .., fun _ => ⟨lastTick_modify .., resumed_modify ..⟩⟩
  | onPause id k =>
    exact ⟨running_modify .., interval_modify .., fun _ => ⟨lastTick_modify .., resumed_modify ..⟩⟩
  | tick now =>
    refine ⟨?_, ?_, fun h => (h now rfl).elim⟩
    all_goals
      simp only [after, alone, World.commit]
      split
      · next hp => rw [(pulse_eq_accepted hp).2]
      · rfl
  | _ => exact ⟨rfl, rfl, fun _ => ⟨rfl, rfl⟩⟩

theorem onClock_after (s : FrameScheduler κ) (r : Request κ) : (s.after r).onClock =
    match r with
    | .onClock k => some k
    | _ => s.onClock := by
  cases r with
  | unregister id =>
    change (s.remove id).2.onClock = _
    rw [remove]
    split <;> rfl
  | setPaused id paused => exact onClock_modify ..
  | onPause id k => exact onClock_modify ..
  | tick now =>
    simp only [after, alone, World.commit]
    split
    · next hp => rw [(pulse_eq_accepted hp).2]
    · rfl
  | _ => rfl

/-- Who is in the order after the step that a request takes at once, and the names issued. -/
theorem order_after (s : FrameScheduler κ) (r : Request κ) :
    ((s.after r).order.Sublist s.order ∧ (s.after r).issued = s.issued) ∨
    ∃ k, r = .register k ∧ (s.after r).order = s.order ++ [⟨s.issued + 1⟩] ∧
      (s.after r).issued = s.issued + 1 := by
  cases r with
  | register k => exact .inr ⟨k, rfl, rfl, rfl⟩
  | unregister id =>
    refine .inl ⟨?_, issued_remove ..⟩
    change (s.remove id).2.order.Sublist s.order
    rw [remove]
    split
    · exact List.filter_sublist
    · exact .refl _
  | setPaused id paused =>
    refine .inl ⟨?_, issued_modify ..⟩
    exact (order_modify s id fun o => { o with paused := paused }) ▸ .refl _
  | onPause id k =>
    refine .inl ⟨?_, issued_modify ..⟩
    exact (order_modify s id fun o => { o with onPause := some k }) ▸ .refl _
  | clearFrames => exact .inl ⟨List.nil_sublist _, rfl⟩
  | tick now =>
    simp only [after, alone, World.commit]
    split
    · next hp =>
      rw [(pulse_eq_accepted hp).2]
      exact .inl ⟨.refl _, rfl⟩
    · exact .inl ⟨.refl _, rfl⟩
  | _ => exact .inl ⟨.refl _, rfl⟩

theorem issued_le_after (s : FrameScheduler κ) (r : Request κ) :
    s.issued ≤ (s.after r).issued := by
  rcases s.order_after r with ⟨_, hissued⟩ | ⟨_, _, _, hissued⟩ <;> omega

/-- An observer was there before the step, unless it is the one that is registered. -/
theorem exists_standing?_of_after {r : Request κ} {o : Bool × Option κ}
    (ho : (s.after r).standing? id = some o) : (∃ o', s.standing? id = some o') ∨
      ∃ k, r = .register k ∧ id = ⟨s.issued + 1⟩ ∧ o = (false, none) := by
  rw [standing?_after] at ho
  split at ho
  · next k =>
    split at ho
    · next heq =>
      cases ho
      exact .inr ⟨k, rfl, heq.symm, rfl⟩
    · exact .inl ⟨o, ho⟩
  · split at ho
    · cases ho
    · exact .inl ⟨o, ho⟩
  · split at ho
    · obtain ⟨o', ho', -⟩ := Option.map_eq_some_iff.1 ho
      exact .inl ⟨o', ho'⟩
    · exact .inl ⟨o, ho⟩
  · split at ho
    · obtain ⟨o', ho', -⟩ := Option.map_eq_some_iff.1 ho
      exact .inl ⟨o', ho'⟩
    · exact .inl ⟨o, ho⟩
  · cases ho
  · exact .inl ⟨o, ho⟩

/-- An observer has the listener that it had before, unless it is given another. -/
theorem exists_listener_of_after {r : Request κ} {o : Bool × Option κ} (hle : id.index ≤ s.issued)
    (hr : ∀ k, r ≠ .onPause id k) (ho : (s.after r).standing? id = some o) :
    ∃ o', s.standing? id = some o' ∧ o'.2 = o.2 := by
  rw [standing?_after] at ho
  split at ho
  · split at ho
    · next heq =>
      subst heq
      simp only at hle
      omega
    · exact ⟨o, ho, rfl⟩
  · split at ho
    · cases ho
    · exact ⟨o, ho, rfl⟩
  · split at ho
    · obtain ⟨o', ho', rfl⟩ := Option.map_eq_some_iff.1 ho
      exact ⟨o', ho', rfl⟩
    · exact ⟨o, ho, rfl⟩
  · split at ho
    · next heq =>
      subst heq
      exact (hr _ rfl).elim
    · exact ⟨o, ho, rfl⟩
  · cases ho
  · exact ⟨o, ho, rfl⟩

/-- Names are issued in order, and no observer is in the order twice. -/
structure Numbered (s : FrameScheduler κ) : Prop where
  nodup : s.order.Nodup
  order_le : ∀ id ∈ s.order, id.index ≤ s.issued
  standing_le : ∀ id o, s.standing? id = some o → id.index ≤ s.issued

theorem numbered_new (interval : Duration) : (new interval : FrameScheduler κ).Numbered :=
  ⟨.nil, nofun, fun id o ho => by simp [standing?, new] at ho⟩

theorem Numbered.after (h : s.Numbered) (r : Request κ) : (s.after r).Numbered := by
  have hle := s.issued_le_after r
  have hstanding : ∀ id o, (s.after r).standing? id = some o → id.index ≤ (s.after r).issued := by
    intro id o ho
    rcases exists_standing?_of_after ho with ⟨o', ho'⟩ | ⟨k, rfl, rfl, _⟩
    · exact Nat.le_trans (h.standing_le id o' ho') hle
    · exact Nat.le_refl _
  rcases s.order_after r with ⟨hsub, _⟩ | ⟨k, _, horder, hissued⟩
  · exact ⟨h.nodup.sublist hsub, fun id hid =>
      Nat.le_trans (h.order_le id (hsub.subset hid)) hle, hstanding⟩
  · have hnew : (⟨s.issued + 1⟩ : ObserverId) ∉ s.order := by
      intro hmem
      have hold := h.order_le _ hmem
      simp only at hold
      omega
    refine ⟨?_, fun id hid => ?_, hstanding⟩
    · rw [horder, ← List.concat_eq_append]
      exact h.nodup.concat hnew
    · rw [horder, List.mem_append, List.mem_singleton] at hid
      rcases hid with hold | rfl
      · exact Nat.le_trans (h.order_le id hold) hle
      · exact Nat.le_of_eq hissued.symm

/-- The same but for the callbacks of observers and whether the clock runs. -/
structure Alike (s s' : FrameScheduler κ) : Prop where
  order : s'.order = s.order
  issued : s'.issued = s.issued
  interval : s'.interval = s.interval
  lastTick : s'.lastTick = s.lastTick
  onClock : s'.onClock = s.onClock
  standing? : ∀ id, s'.standing? id = s.standing? id

theorem Numbered.alike (h : s.Numbered) (halike : s.Alike s') : s'.Numbered where
  nodup := halike.order ▸ h.nodup
  order_le := by
    rw [halike.order, halike.issued]
    exact h.order_le
  standing_le id o ho := by
    rw [halike.standing?] at ho
    rw [halike.issued]
    exact h.standing_le id o ho

theorem Alike.refl (s : FrameScheduler κ) : s.Alike s := ⟨rfl, rfl, rfl, rfl, rfl, fun _ => rfl⟩

theorem Alike.trans (h : s.Alike s') (h' : s'.Alike s'') : s.Alike s'' where
  order := h'.order.trans h.order
  issued := h'.issued.trans h.issued
  interval := h'.interval.trans h.interval
  lastTick := h'.lastTick.trans h.lastTick
  onClock := h'.onClock.trans h.onClock
  standing? id := (h'.standing? id).trans (h.standing? id)

/-- A change of an observer's callback. -/
theorem alike_modify (s : FrameScheduler κ) (id : ObserverId) (f : FrameObserver κ → Option κ) :
    s.Alike (s.modify id fun o => { o with callback := f o }) where
  order := order_modify ..
  issued := issued_modify ..
  interval := interval_modify ..
  lastTick := lastTick_modify ..
  onClock := onClock_modify ..
  standing? id' := by
    rw [standing?_modify]
    split
    · rfl
    · rfl

theorem alike_refresh (s : FrameScheduler κ) : s.Alike s.refresh.2 := by
  rw [refresh]
  split <;> exact ⟨rfl, rfl, rfl, rfl, rfl, fun _ => rfl⟩

theorem refresh_of_eq_none (h : s.refresh.1 = none) : s.refresh.2 = s := by
  rw [refresh] at h ⊢
  split at h
  · next hsame => rw [if_pos hsame]
  · cases h

theorem refresh_of_eq_some (h : s.refresh.1 = some running) :
    s.refresh.2.running = running ∧ running = !s.running ∧
      s.refresh.2.resumed = (running || s.resumed) := by
  rw [refresh] at h ⊢
  split at h
  · cases h
  · next hother =>
    cases h
    rw [if_neg hother]
    exact ⟨rfl, Bool.eq_not.2 hother, rfl⟩

end FrameScheduler

end ViewHost
