import ViewHost.Proofs.Frame.Clock

/-!
# An observer that is left alone

Where no callback names a certain observer, and none has all of them forgotten, that
observer is left as it is, whatever else they ask for. It has its turns in the ticks,
but after each of them its callback is back in place.
-/

namespace ViewHost

variable {κ ω : Type}

/-- Requests that do nothing to a certain observer. -/
def Request.Spares (hidden : ObserverId) : Request κ → Prop
  | unregister id | setPaused id _ | onPause id _ => id ≠ hidden
  | clearFrames => False
  | _ => True

/-- A certain observer is as it was, and it is still first in the order if it was. -/
structure FrameScheduler.Spared (hidden : ObserverId) (s s' : FrameScheduler κ) : Prop where
  issued : s.issued ≤ s'.issued
  interval : s'.interval = s.interval
  observer : hidden.index ≤ s.issued → s'.observers[hidden]? = s.observers[hidden]?
  first : s.order.head? = some hidden → s'.order.head? = some hidden

namespace FrameScheduler.Spared

variable {hidden id : ObserverId} {k : κ} {s s' s'' : FrameScheduler κ}

theorem refl (hidden : ObserverId) (s : FrameScheduler κ) : s.Spared hidden s :=
  ⟨Nat.le_refl _, rfl, fun _ => rfl, fun h => h⟩

theorem trans (h : s.Spared hidden s') (h' : s'.Spared hidden s'') : s.Spared hidden s'' where
  issued := Nat.le_trans h.issued h'.issued
  interval := h'.interval.trans h.interval
  observer hold := (h'.observer (Nat.le_trans hold h.issued)).trans (h.observer hold)
  first hfirst := h'.first (h.first hfirst)

theorem add (hidden : ObserverId) (s : FrameScheduler κ) (k : κ) : s.Spared hidden (s.add k).2 where
  issued := Nat.le_succ _
  interval := rfl
  observer hold := by
    rw [getElem?_add, if_neg]
    rintro rfl
    exact Nat.not_succ_le_self _ hold
  first hfirst := by
    change (s.order ++ _).head? = _
    rw [List.head?_append, hfirst]
    rfl

theorem remove (s : FrameScheduler κ) (hid : id ≠ hidden) : s.Spared hidden (s.remove id).2 where
  issued := Nat.le_of_eq (issued_remove s id).symm
  interval := by
    rw [FrameScheduler.remove]
    split <;> rfl
  observer _ := by rw [getElem?_remove, if_neg hid]
  first hfirst := by
    rw [FrameScheduler.remove]
    split
    · obtain ⟨rest, horder⟩ := List.head?_eq_some_iff.1 hfirst
      change (s.order.filter _).head? = _
      rw [horder, List.filter_cons_of_pos (by simpa using Ne.symm hid)]
      rfl
    · exact hfirst

theorem modify (s : FrameScheduler κ) (hid : id ≠ hidden) (f : FrameObserver κ → FrameObserver κ) :
    s.Spared hidden (s.modify id f) where
  issued := Nat.le_of_eq (issued_modify s id f).symm
  interval := interval_modify s id f
  observer _ := by rw [getElem?_modify, if_neg hid]
  first hfirst := by rw [order_modify, hfirst]

theorem accepted {now : Timestamp} {tick : FrameTick} (hidden : ObserverId)
    (hp : s.pulse now = .accepted tick s') : s.Spared hidden s' := by
  rw [(pulse_eq_accepted hp).2]
  exact ⟨Nat.le_refl _, rfl, fun _ => rfl, fun h => h⟩

theorem refresh (hidden : ObserverId) (s : FrameScheduler κ) : s.Spared hidden s.refresh.2 where
  issued := Nat.le_of_eq (issued_refresh s).symm
  interval := by
    rw [FrameScheduler.refresh]
    split <;> rfl
  observer _ := by rw [observers_refresh]
  first hfirst := by rw [order_refresh, hfirst]

/-- An observer has its turn, be it the one or another. -/
theorem turn (htake : s.takeCallback? id = some (k, s')) (h : s'.Spared hidden s'') :
    s.Spared hidden (s''.restore id k) := by
  obtain ⟨o, ho, hk, -, rfl⟩ := takeCallback?_eq_some_iff.1 htake
  by_cases hid : id = hidden
  · subst hid
    refine ⟨?_, ?_, ?_, ?_⟩
    · rw [FrameScheduler.restore, issued_modify, ← issued_modify s]
      exact h.issued
    · rw [FrameScheduler.restore, interval_modify, h.interval, interval_modify]
    · intro hold
      rw [FrameScheduler.restore, getElem?_modify, if_pos rfl, h.observer (by simpa using hold),
        getElem?_modify, if_pos rfl, ho, Option.map_some, Option.map_some, ← hk]
      rfl
    · intro hfirst
      rw [FrameScheduler.restore, order_modify]
      exact h.first (by rw [order_modify, hfirst])
  · exact ((modify s hid _).trans h).trans (modify s'' hid _)

end FrameScheduler.Spared

namespace World

variable {hidden : ObserverId} {w w' : World κ ω} {r : Request κ}

theorem spared_commit (w : World κ ω) (hr : r.Spares hidden) :
    w.frames.Spared hidden (w.commit r).frames := by
  cases r with
  | register k => exact .add hidden _ k
  | unregister id => exact .remove _ hr
  | setPaused id paused => exact .modify _ hr _
  | onPause id k => exact .modify _ hr _
  | onClock k => exact ⟨Nat.le_refl _, rfl, fun _ => rfl, fun h => h⟩
  | tick now =>
    rw [commit]
    split
    · next hp => exact .accepted hidden hp
    · exact .refl hidden _
  | clearFrames => exact hr.elim
  | _ => exact .refl hidden _

/-- Callbacks that spare an observer, and so it is left alone. -/
theorem upkeep_spared {b : Behaviour κ ω}
    (hb : ∀ k c r c', b.request k c = some (r, c') → r.Spares hidden) :
    Upkeep b (fun r w w' => w'.frames = w.frames ∧ r.Spares hidden)
      (fun _ w w' => w.frames.Spared hidden w'.frames)
      (fun w w' => w.frames.Spared hidden w'.frames) where
  refl _ := .refl hidden _
  trans := .trans
  request hr := ⟨rfl, hb _ _ _ _ hr⟩
  answer _ _ _ := .refl hidden _
  leave _ _ := .refl hidden _
  ignored hasked _ := hasked.1 ▸ .refl hidden _
  commit hasked _ := hasked.1 ▸ spared_commit _ hasked.2
  during := .trans
  pause _ _ hmid _ _ := hmid
  refresh hmid _ _ := hmid.trans (.refresh hidden _)
  clock _ _ hmid _ _ _ := hmid.trans (.refresh hidden _)
  turn _ hmid htake hR := hmid.trans (.turn htake hR)
  shortcut _ _ hmid := hmid
  key _ _ _ _ hmid := hmid
  prevented _ hmid := hmid
  done hmid _ := hmid

end World

open Run in
/-- The observer that no callback names is paused or woken up by someone else. Nothing
comes of it but that the clock may start or stop. -/
theorem Control.ends_setPaused_spared {b : Behaviour κ ω} {hidden : ObserverId}
    (hb : ∀ k c r c', b.request k c = some (r, c') → r.Spares hidden) (budget : Nat)
    (paused : Bool) {w : World κ ω} (hw : w.frames.Synced) {o : FrameObserver κ}
    (ho : w.frames.observers[hidden]? = some o) (hpause : o.onPause = none) :
    Ends (setPaused (call b budget) hidden paused) w fun _ w' =>
      (w.frames.modify hidden fun o => { o with paused := paused }).Spared hidden w'.frames ∧
      w'.frames.Synced := by
  have hspared := World.upkeep_spared hb
  have hsynced := World.upkeep_synced b
  let w₁ : World κ ω :=
    { w with frames := w.frames.modify hidden fun o => { o with paused := paused } }
  have hrefresh : Ends (refreshClock (call b budget)) w₁ fun _ w' =>
      w₁.frames.Spared hidden w'.frames ∧ World.StaysSynced w w' :=
    (ends_refreshClock (r := .setPaused hidden paused) hspared (ends_call hspared budget).1
        (hspared.refl w₁) rfl).and
      (ends_refreshClock (r := .setPaused hidden paused) hsynced (ends_call hsynced budget).1
        nofun rfl)
  refine ends_get_bind ?_
  dsimp only
  rw [ho]
  dsimp only
  split
  · next hsame =>
    have hsame : (w.frames.modify hidden fun o => { o with paused := paused }) = w.frames := by
      apply FrameScheduler.modify_eq_self
      intro o' ho'
      cases ho.symm.trans ho'
      rw [← hsame]
    refine ends_pure ⟨?_, hw⟩
    rw [hsame]
    exact .refl hidden _
  · refine Ends.bind (ends_modify ?_)
    rw [hpause]
    refine Ends.bind (hrefresh.mono ?_)
    rintro _ w' ⟨hspared', hsynced'⟩
    exact ends_pure ⟨hspared', hsynced' hw⟩

end ViewHost
