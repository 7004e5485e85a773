import ViewHost.Proofs.Control.Upkeep
import ViewHost.Proofs.Frame.Steps

/-!
# The clock

Between requests the clock is meant to run if and only if an observer wants ticks. In
the middle of a request it may lag behind: the pause listener is called before the
clock is looked at. But whatever is asked for meanwhile looks at it in the end, and so
does the request itself, unless nothing that it has done can start or stop the clock.
-/

namespace ViewHost

variable {κ ω : Type}

theorem any_eq_any_toList {α β : Type} [Ord α] [Std.TransOrd α] (t : Std.ExtTreeMap α β)
    (p : α → β → Bool) : t.any p = t.toList.any fun x => p x.1 x.2 := by
  have hloop : t.any p = Id.run (do
      for x in t do
        if p x.1 x.2 then return true
      return false) := by
    obtain ⟨⟨q⟩⟩ := t
    induction q using Quotient.ind with
    | _ m => rfl
  rw [hloop]
  simp only [Std.ExtTreeMap.forIn_eq_forIn_toList]
  generalize t.toList = l
  induction l with
  | nil => rfl
  | cons x l ih =>
    rw [List.forIn_cons, List.any_cons]
    cases hx : p x.1 x.2 with
    | true => simp
    | false => simpa using ih

namespace FrameScheduler

variable {s s' : FrameScheduler κ} {id : ObserverId} {k : κ}
variable {f : FrameObserver κ → FrameObserver κ}

/-- Ticks are wanted if an observer is awake. -/
theorem wanted_iff (s : FrameScheduler κ) : s.wanted = true ↔ ∃ id, s.isAwake id = true := by
  rw [wanted, any_eq_any_toList, List.any_eq_true]
  simp only [isAwake_iff, Prod.exists, Std.ExtTreeMap.mem_toList_iff_getElem?_eq_some,
    Bool.not_eq_true']

theorem wanted_congr (h : ∀ id, s'.isAwake id = s.isAwake id) : s'.wanted = s.wanted := by
  rw [Bool.eq_iff_iff, wanted_iff, wanted_iff]
  exact exists_congr fun id => by rw [h id]

theorem isAwake_modify (s : FrameScheduler κ) (id : ObserverId) (hf : ∀ o, (f o).paused = o.paused)
    (id' : ObserverId) : (s.modify id f).isAwake id' = s.isAwake id' := by
  rw [isAwake, isAwake, isPaused?, isPaused?, getElem?_modify]
  split
  · next heq =>
    rw [← heq, Option.map_map]
    congr 2
    exact funext hf
  · rfl

/-- The clock is meant to run if and only if ticks are wanted. -/
def Synced (s : FrameScheduler κ) : Prop := s.running = s.wanted

theorem synced_refresh (s : FrameScheduler κ) : s.refresh.2.Synced := by
  have hwanted : s.refresh.2.wanted = s.wanted := by rw [wanted, wanted, observers_refresh]
  rw [Synced, hwanted, refresh]
  split
  · next hsame => exact hsame.symm
  · rfl

/-- Changes after which the same observers want ticks. -/
theorem Synced.congr (h : s.Synced) (hrunning : s'.running = s.running)
    (hawake : ∀ id, s'.isAwake id = s.isAwake id) : s'.Synced := by
  rw [Synced, hrunning, wanted_congr hawake]
  exact h

theorem Synced.modify (h : s.Synced) (id : ObserverId) (hf : ∀ o, (f o).paused = o.paused) :
    (s.modify id f).Synced :=
  h.congr (running_modify s id f) (isAwake_modify s id hf)

theorem Synced.take (h : s.Synced) (htake : s.takeCallback? id = some (k, s')) : s'.Synced := by
  obtain ⟨_, _, _, _, rfl⟩ := takeCallback?_eq_some_iff.1 htake
  exact h.modify id fun _ => rfl

theorem Synced.accepted (h : s.Synced) {now : Timestamp} {tick : FrameTick}
    (hp : s.pulse now = .accepted tick s') : s'.Synced := by
  rw [(pulse_eq_accepted hp).2]
  exact h.congr rfl fun _ => rfl

end FrameScheduler

namespace World

variable {w w' : World κ ω} {r : Request κ}

/-- The clock is as it should be if it was. -/
def StaysSynced (w w' : World κ ω) : Prop := w.frames.Synced → w'.frames.Synced

/-- A request that does not look at the clock does nothing to start or stop it. -/
theorem synced_commit (hr : r.stirs = false) (h : w.frames.Synced) :
    (w.commit r).frames.Synced := by
  cases r with
  | register k => cases hr
  | unregister id => cases hr
  | setPaused id paused => cases hr
  | clearFrames => cases hr
  | onPause id k => exact h.modify id fun _ => rfl
  | onClock k => exact h.congr rfl fun _ => rfl
  | tick now =>
    rw [commit]
    split
    · next hp => exact h.accepted hp
    · exact h
  | _ => exact h

theorem upkeep_synced (b : Behaviour κ ω) : Upkeep b (fun _ w w' => w'.frames = w.frames)
    (fun r w w' => r.stirs = false → StaysSynced w w') StaysSynced where
  refl _ h := h
  trans h h' hu := h' (h hu)
  request _ := rfl
  answer _ _ _ h := h
  leave _ _ h := h
  ignored hasked _ h := hasked ▸ h
  commit hasked _ hr h := synced_commit hr (hasked ▸ h)
  during hmid h hr hw := h (hmid hr hw)
  pause _ _ hmid _ _ hr := hmid hr
  refresh _ _ _ _ := FrameScheduler.synced_refresh _
  clock _ _ _ _ _ _ _ := FrameScheduler.synced_refresh _
  turn _ hmid htake hR hr hw := (hR ((hmid hr hw).take htake)).modify _ fun _ => rfl
  shortcut _ _ hmid hr := hmid hr
  key _ _ _ _ hmid hr := hmid hr
  prevented _ hmid hr := hmid hr
  done hmid hr := hmid hr

end World

end ViewHost
