import ViewHost.Proofs.Frame.Clock
import ViewHost.Proofs.Frame.Spared
import ViewHost.Proofs.Host.Session

/-!
# Waking up in time

What is pending goes out on a frame, and so there has to be one. Every way of input that
leaves something pending wakes up the host's own frame observer afterwards, which keeps
the clock running, and nobody but the host puts it to sleep again. That is done after a
frame and only if nothing is pending then. The observer came first, so it is the first
one to be called by a tick, and whatever the others do comes too late to keep anything
back.

All this is about operations that return, and about callbacks that do not have all frame
observers forgotten.
-/

namespace ViewHost

open Run

variable {α κ ω β : Type}

/-- Callbacks that never have all frame observers forgotten. -/
def Behaviour.KeepsFrames (b : Behaviour κ ω) : Prop :=
  ∀ k c c', b.request k c ≠ some (.clearFrames, c')

/-- The host's own observer cannot be named by mistake. -/
theorem Request.spares_sparing {r : Request κ} {flush : ObserverId} (hflush : flush ≠ ⟨0⟩)
    (hr : r ≠ .clearFrames) : ((r.sparing flush).map HostCallback.client).Spares flush := by
  have hother : ∀ id : ObserverId, (if id = flush then ⟨0⟩ else id) ≠ flush := by
    intro id
    split
    · exact Ne.symm hflush
    · next hne => exact hne
  cases r with
  | unregister id => exact hother id
  | setPaused id paused => exact hother id
  | onPause id k => exact hother id
  | clearFrames => exact (hr rfl).elim
  | _ => trivial

namespace Shared

variable {s s' : Shared α ω}

theorem hasPending_eq_false_iff :
    s.hasPending = false ↔ s.touches.pending = [] ∧ s.outbox = [] := by
  simp [hasPending, TouchTracker.hasPending]

theorem hasPending_congr (h : s'.line = s.line) : s'.hasPending = s.hasPending := by
  simp only [line, Prod.mk.injEq] at h
  rw [hasPending, hasPending, h.1, h.2.1]

/-- Nothing is pending after a move. -/
theorem hasPending_of_line_flush (h : s'.line = s.flush.line) : s'.hasPending = false := by
  rw [hasPending_congr h, hasPending_eq_false_iff]
  exact ⟨pending_sealPending s, rfl⟩

end Shared

namespace Host

/-- A move adds nothing to what is pending. -/
theorem Moved.hasPending {s s' : Shared α ω} (h : Moved s s') (hpending : s'.hasPending = true) :
    s.hasPending = true := by
  rcases h with h | h
  · rw [← Shared.hasPending_congr h, hpending]
  · rw [Shared.hasPending_of_line_flush h] at hpending
    cases hpending

/-- The host's own frame observer is in its place, which is the first one, and the clock
is as it should be. -/
structure Manned (h : Host α κ ω) : Prop where
  tame : h.Tame
  named : h.flush ≠ ⟨0⟩
  issued : h.flush.index ≤ h.world.frames.issued
  first : h.world.frames.order.head? = some h.flush
  observer : ∃ paused, h.world.frames.observers[h.flush]? = some ⟨some .flush, paused, none⟩
  interval : h.world.frames.interval = h.config.frameInterval
  synced : h.world.frames.Synced

/-- The host's own observer is awake if it is needed. -/
structure Alert (h : Host α κ ω) : Prop extends h.Manned where
  awake : h.shared.hasPending = true → h.world.frames.isPaused? h.flush = some false

/-- What operations do that leave the host's own observer alone. -/
structure Undisturbed (h h' : Host α κ ω) : Prop where
  tame : h'.Tame
  eq_with_world : h' = { h with world := h'.world }
  spared : h.world.frames.Spared h.flush h'.world.frames
  synced : World.StaysSynced h.world h'.world
  pending : h'.shared.hasPending = true → h.shared.hasPending = true

variable {h h' : Host α κ ω}

theorem Manned.congr (hh : h.Manned) (hconfig : h'.config = h.config) (hflush : h'.flush = h.flush)
    (hframes : h'.world.frames = h.world.frames) (hkeys : h'.world.keys = h.world.keys) :
    h'.Manned where
  tame := ⟨hframes ▸ hh.tame.frames, hkeys ▸ hh.tame.keys⟩
  named := hflush ▸ hh.named
  issued := by
    rw [hflush, hframes]
    exact hh.issued
  first := by
    rw [hflush, hframes]
    exact hh.first
  observer := by
    rw [hflush, hframes]
    exact hh.observer
  interval := by
    rw [hconfig, hframes]
    exact hh.interval
  synced := hframes ▸ hh.synced

theorem Alert.congr (hh : h.Alert) (hconfig : h'.config = h.config) (hflush : h'.flush = h.flush)
    (hframes : h'.world.frames = h.world.frames) (hkeys : h'.world.keys = h.world.keys)
    (hpending : h'.shared.hasPending = h.shared.hasPending) : h'.Alert where
  toManned := hh.toManned.congr hconfig hflush hframes hkeys
  awake := by
    rw [hpending, hflush, hframes]
    exact hh.awake

theorem Undisturbed.isPaused?_eq (hu : Undisturbed h h') (hh : h.Manned) :
    h'.world.frames.isPaused? h'.flush = h.world.frames.isPaused? h.flush := by
  have hflush : h'.flush = h.flush := by rw [hu.eq_with_world]
  rw [hflush, FrameScheduler.isPaused?, FrameScheduler.isPaused?, hu.spared.observer hh.issued]

theorem Undisturbed.manned (hu : Undisturbed h h') (hh : h.Manned) : h'.Manned := by
  have hflush : h'.flush = h.flush := by rw [hu.eq_with_world]
  have hconfig : h'.config = h.config := by rw [hu.eq_with_world]
  refine ⟨hu.tame, hflush ▸ hh.named, ?_, ?_, ?_, ?_, hu.synced hh.synced⟩
  · rw [hflush]
    exact Nat.le_trans hh.issued hu.spared.issued
  · rw [hflush]
    exact hu.spared.first hh.first
  · rw [hflush, hu.spared.observer hh.issued]
    exact hh.observer
  · rw [hconfig, hu.spared.interval]
    exact hh.interval

theorem Undisturbed.alert (hu : Undisturbed h h') (hh : h.Alert) : h'.Alert where
  toManned := hu.manned hh.toManned
  awake hpending := (hu.isPaused?_eq hh.toManned).trans (hh.awake (hu.pending hpending))

/-! ## Operations of the control thread -/

section

variable {b : Behaviour κ ω} (budget : Nat)

theorem ends_control {m : Caller (HostCallback κ) (Shared α ω) →
      Control (HostCallback κ) (Shared α ω) β} {Q : β → World (HostCallback κ) (Shared α ω) → Prop}
    (hm : Ends (m (Control.call (behaviour b h.flush) budget)) h.world Q) :
    Ends (Act.control b budget m) h fun a h' =>
      h' = { h with world := h'.world } ∧ Q a h'.world := by
  intro a h' hrun
  cases hw : m (Control.call (behaviour b h.flush) budget) h.world with
  | ok a w =>
    rw [Act.control, hw] at hrun
    cases hrun
    exact ⟨rfl, hm _ _ hw⟩
  | error e w =>
    rw [Act.control, hw] at hrun
    cases hrun

/-- What only has callbacks run keeps the world tame and adds nothing to what is pending. -/
theorem Serves.ends {m : Act α κ ω β} (hm : Serves m) (hh : h.Tame) :
    Ends m h fun _ h' => h'.Tame ∧ (h'.shared.hasPending = true → h.shared.hasPending = true) := by
  intro a h' hrun
  obtain ⟨htame, hserved⟩ := hm h hh
  rw [final_of_ok hrun] at htame hserved
  exact ⟨htame, hserved.outside.1.2.hasPending⟩

/-- An operation leaves the host's own observer alone if its part on the control thread
does. -/
theorem ends_undisturbed {m : Caller (HostCallback κ) (Shared α ω) →
      Control (HostCallback κ) (Shared α ω) β}
    (hserves : Serves (α := α) (Act.control b budget m)) (hh : h.Tame)
    (hm : Ends (m (Control.call (behaviour b h.flush) budget)) h.world fun _ w' =>
      h.world.frames.Spared h.flush w'.frames ∧ World.StaysSynced h.world w') :
    Ends (Act.control b budget m) h fun _ h' => Undisturbed h h' := by
  refine ((ends_control budget hm).and (hserves.ends hh)).mono ?_
  rintro a h' ⟨⟨heq, hspared, hsynced⟩, htame, hpending⟩
  exact ⟨htame, heq, hspared, hsynced, hpending⟩

variable (hb : b.KeepsFrames)

include hb

/-- Nothing that callbacks ask for is about the host's own observer. -/
theorem spares_behaviour (hflush : h.flush ≠ ⟨0⟩) (k : HostCallback κ) (s : Shared α ω)
    (r : Request (HostCallback κ)) (s' : Shared α ω)
    (hr : (behaviour b h.flush).request k s = some (r, s')) : r.Spares h.flush := by
  cases k with
  | flush => cases hr
  | client k =>
    obtain ⟨⟨r', c⟩, hr', heq⟩ := Option.map_eq_some_iff.1 hr
    cases heq
    refine Request.spares_sparing hflush ?_
    rintro rfl
    exact hb k _ _ hr'

theorem ends_tick_undisturbed (now : Timestamp) (hh : h.Manned) :
    Ends (Act.control b budget fun call => Control.tick call now) h fun _ h' =>
      Undisturbed h h' := by
  have hspared := World.upkeep_spared (spares_behaviour hb hh.named)
  have hsynced := World.upkeep_synced (behaviour (α := α) b h.flush)
  refine ends_undisturbed budget (serves_control b budget fun h => ?_) hh.tame ?_
  · exact Control.keeps_tick regime.outer regime.inner (keeps_calls b budget h).2 regime.ticked now
  · exact (Control.ends_tick hspared (Control.ends_call hspared budget).1 ⟨rfl, trivial⟩).and
      (Control.ends_tick hsynced (Control.ends_call hsynced budget).1 rfl)

theorem ends_handleKey (e : KeyEvent) (hh : h.Manned) :
    Ends (handleKey b budget e) h fun _ h' => Undisturbed h h' := by
  have hspared := World.upkeep_spared (spares_behaviour hb hh.named)
  have hsynced := World.upkeep_synced (behaviour (α := α) b h.flush)
  refine ends_undisturbed budget (serves_handleKey b budget e) hh.tame ?_
  exact (Control.ends_dispatch hspared (Control.ends_call hspared budget).1
      (hspared.commit ⟨rfl, trivial⟩ rfl)).and
    (Control.ends_dispatch hsynced (Control.ends_call hsynced budget).1 (hsynced.commit rfl rfl))

theorem ends_request {r : Request κ} (hr : r ≠ .clearFrames) (hh : h.Manned) :
    Ends (request b budget r) h fun _ h' => Undisturbed h h' := by
  have hspared := World.upkeep_spared (spares_behaviour hb hh.named)
  have hsynced := World.upkeep_synced (behaviour (α := α) b h.flush)
  refine ends_get_bind (ends_undisturbed budget (serves_control b budget fun h' => ?_) hh.tame ?_)
  · have hcalls := keeps_calls b budget h'
    exact Control.keeps_perform regime hcalls.1 hcalls.2 (HostCallback.tame_map_client _)
  · exact (Control.ends_perform hspared (Control.ends_call hspared budget).1
        ⟨rfl, Request.spares_sparing hh.named hr⟩).and
      (Control.ends_perform hsynced (Control.ends_call hsynced budget).1 rfl)

/-- The host's own observer is paused or woken up, and then the clock looks at it. -/
theorem ends_setFlushPaused (paused : Bool) (hh : h.Manned) :
    Ends (setFlushPaused b budget paused) h fun _ h' =>
      h'.Manned ∧ h'.world.frames.isPaused? h'.flush = some paused ∧
      (h'.shared.hasPending = true → h.shared.hasPending = true) := by
  obtain ⟨before, ho⟩ := hh.observer
  have hcontrol := ends_control budget (m := fun call => Control.setPaused call h.flush paused)
    (Control.ends_setPaused_spared (spares_behaviour hb hh.named) budget paused hh.synced ho rfl)
  have hserves : Serves (α := α) (Act.control b budget fun call =>
      Control.setPaused call h.flush paused) :=
    serves_control b budget fun h' =>
      Control.keeps_setPaused regime.outer (keeps_calls b budget h').1 _ _
  refine ends_get_bind (Ends.bind ((hcontrol.and (hserves.ends hh.tame)).mono ?_))
  rintro _ h' ⟨⟨heq, hspared, hsynced⟩, htame, hpending⟩
  refine ends_pure ?_
  have hflush : h'.flush = h.flush := by rw [heq]
  have hconfig : h'.config = h.config := by rw [heq]
  have hobserver : h'.world.frames.observers[h.flush]? = some ⟨some .flush, paused, none⟩ := by
    rw [hspared.observer (by simpa using hh.issued), FrameScheduler.getElem?_modify, if_pos rfl, ho]
    rfl
  refine ⟨⟨htame, hflush ▸ hh.named, ?_, ?_, ?_, ?_, hsynced⟩, ?_, hpending⟩
  · rw [hflush]
    exact Nat.le_trans (by simpa using hh.issued) hspared.issued
  · rw [hflush]
    exact hspared.first (by simpa using hh.first)
  · exact ⟨paused, by rw [hflush, hobserver]⟩
  · rw [hconfig, hspared.interval, FrameScheduler.interval_modify]
    exact hh.interval
  · rw [hflush, FrameScheduler.isPaused?, hobserver]
    rfl

/-- Whatever is pending, it is not left asleep. -/
theorem ends_wakeFlush (hh : h.Manned) : Ends (wakeFlush b budget) h fun _ h' => h'.Alert := by
  refine ends_get_bind ?_
  split
  · refine (ends_setFlushPaused budget hb false hh).mono ?_
    rintro _ h' ⟨hh', hpaused, -⟩
    exact ⟨hh', fun _ => hpaused⟩
  · next hidle => exact ends_pure ⟨hh, fun hpending => (hidle hpending).elim⟩

/-- A hover change that is news wakes the observer up, and one that is not leaves nothing
behind. -/
theorem ends_hoverTo (at_ : Timestamp) (result : List HoverChange × HoverTracker)
    (hh : h.Manned) : Ends (hoverTo b budget at_ result) h fun _ h' =>
      h'.Manned ∧ (h.Alert → h'.Alert) := by
  refine Ends.bind (ends_modify (ends_get_bind ?_))
  dsimp only
  split
  · refine ends_pure ⟨hh.congr rfl rfl rfl rfl, ?_⟩
    intro halert
    exact halert.congr rfl rfl rfl rfl rfl
  · refine Ends.bind ?_
    intro _ h₁ hset
    cases hset
    refine Ends.bind (ends_modify ((ends_wakeFlush budget hb ?_).mono ?_))
    · exact hh.congr rfl rfl rfl rfl
    · intro _ h' hh'
      exact ⟨hh'.toManned, fun _ => hh'⟩

theorem ends_setRoot (root : Tag) (at_ : Timestamp) (hh : h.Alert) :
    Ends (setRoot b budget root at_) h fun _ h' => h'.Alert := by
  refine Ends.bind (ends_modify (ends_get_bind ?_))
  have hrooted : (h.setShared { h.shared with touches := h.shared.touches.setRoot root }).Alert :=
    hh.congr rfl rfl rfl rfl rfl
  exact (ends_hoverTo budget hb _ _ hrooted.toManned).mono fun _ h' hh' => hh'.2 hrooted

/-- After a tick the host's own observer is asleep if and only if nothing is pending. -/
theorem ends_tick (now : Timestamp) (hh : h.Alert) :
    Ends (Host.tick b budget now) h fun _ h' =>
      h'.Alert ∧ h'.world.frames.isPaused? h'.flush = some (!h'.shared.hasPending) := by
  refine Ends.bind ((ends_tick_undisturbed budget hb now hh.toManned).mono ?_)
  intro tick h₁ hu
  have hh₁ := hu.alert hh
  refine ends_get_bind ?_
  split
  · next hidle =>
    rw [Bool.not_eq_true'] at hidle
    refine Ends.bind ((ends_setFlushPaused budget hb true hh₁.toManned).mono ?_)
    rintro _ h' ⟨hh', hpaused, hpending⟩
    have hidle' : h'.shared.hasPending = false := by
      rw [Bool.eq_false_iff]
      intro hsome
      exact Bool.false_ne_true (hidle.symm.trans (hpending hsome))
    refine ends_pure ⟨⟨hh', ?_⟩, ?_⟩
    · intro hsome
      rw [hidle'] at hsome
      cases hsome
    · rw [hpaused, hidle']
      rfl
  · next hbusy =>
    have hbusy : h₁.shared.hasPending = true := by simpa using hbusy
    refine ends_pure ⟨hh₁, ?_⟩
    rw [hh₁.awake hbusy, hbusy]
    rfl

variable [Scalar α]

theorem ends_routePointer (e : PointerEvent α) (hh : h.Manned) :
    Ends (routePointer b budget e) h fun _ h' => h'.Manned := by
  refine ends_get_bind ?_
  cases e.action with
  | down button => exact ends_modify (hh.congr rfl rfl rfl rfl)
  | move =>
    dsimp only
    split
    · exact ends_modify (hh.congr rfl rfl rfl rfl)
    · split
      · exact (ends_hoverTo budget hb _ _ hh).mono fun _ h' hh' => hh'.1
      · exact ends_pure hh
  | up button => exact ends_modify (hh.congr rfl rfl rfl rfl)
  | cancel reason =>
    have hcancelled : (h.setShared { h.shared with
        touches := (h.shared.touches.cancel reason e.timestamp).2 }).Manned :=
      hh.congr rfl rfl rfl rfl
    refine Ends.bind (ends_modify ?_)
    split
    · exact (ends_hoverTo budget hb _ _ hcancelled).mono fun _ h' hh' => hh'.1
    · exact ends_pure hcancelled

theorem ends_handlePointer (e : PointerEvent α) (hh : h.Manned) :
    Ends (handlePointer b budget e) h fun _ h' => h'.Alert := by
  refine Ends.bind ((ends_routePointer budget hb e hh).mono ?_)
  intro _ h₁ hh₁
  exact ends_wakeFlush budget hb hh₁

end

theorem Alert.apply [Scalar α] (hh : h.Alert) {c : Command α} (hc : h.apply c = .ok h') :
    h'.Alert := by
  obtain ⟨_, -, rfl⟩ := exists_of_apply_eq_ok hc
  exact hh.congr rfl rfl rfl rfl rfl

theorem Alert.applyAll [Scalar α] (hh : h.Alert) (cs : List (Command α)) :
    (h.applyAll cs).2.Alert := by
  rw [(ViewsOnly.applyAll h cs).rest]
  exact hh.congr rfl rfl rfl rfl rfl

theorem alert_new [Scalar α] (root : Tag) (config : HostConfig α) (client : ω) :
    (Host.new root config client : Host α κ ω).Alert := by
  let added : FrameScheduler (HostCallback κ) :=
    ((FrameScheduler.new config.frameInterval).add .flush).2
  let frames := added.modify ⟨1⟩ fun o => { o with paused := true }
  have hobserver : ∀ id, frames.observers[id]? =
      if (⟨1⟩ : ObserverId) = id then some ⟨some .flush, true, none⟩ else none := by
    intro id
    rw [FrameScheduler.getElem?_modify, FrameScheduler.getElem?_add, FrameScheduler.getElem?_add]
    split
    · rfl
    · next hne => exact (if_neg hne).trans (by simp [FrameScheduler.new])
  have hawake : ∀ id, frames.isAwake id = false := by
    intro id
    rw [FrameScheduler.isAwake, FrameScheduler.isPaused?, hobserver]
    split <;> rfl
  have hsynced : frames.Synced := by
    have hwanted : frames.wanted = false := by
      rw [Bool.eq_false_iff]
      intro hwanted
      obtain ⟨id, hid⟩ := frames.wanted_iff.1 hwanted
      rw [hawake] at hid
      cases hid
    exact (FrameScheduler.running_modify ..).trans hwanted.symm
  refine ⟨⟨tame_new root config client, ?_, ?_, ?_, ?_, ?_, hsynced⟩, ?_⟩
  · intro hflush
    cases hflush
  · exact Nat.le_of_eq (added.issued_modify ⟨1⟩ _).symm
  · exact congrArg List.head? (added.order_modify ⟨1⟩ _)
  · exact ⟨true, (hobserver ⟨1⟩).trans (if_pos rfl)⟩
  · exact added.interval_modify ⟨1⟩ _
  · intro hpending
    cases hpending

end Host

end ViewHost
