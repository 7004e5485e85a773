import ViewHost.Control.Run
import ViewHost.Proofs.Control.Runs

/-!
# What completed operations uphold

A request is carried out in the open: it takes its own step at once, and the callbacks
that are called after that may take steps of their own before it is done. What a
relation between the world before and after has to bear is therefore listed step by
step. If it bears all of the steps, it holds of every request that is carried out and
of every callback that returns, however deep they are nested.

Runs that stop short are left out here: an observer whose callback did not return is
not as it was.
-/

namespace ViewHost

open Run

variable {κ ω : Type}

/-- After these requests the clock is started or stopped if it has to be. -/
def Request.stirs : Request κ → Bool
  | register _ | unregister _ | setPaused .. | clearFrames => true
  | _ => false

namespace World

/-- Whether a request is for something that can be done. Observers that are gone or as
they should be, and pulses that come too soon, are left at that. -/
def heeds (w : World κ ω) : Request κ → Bool
  | .unregister id => w.frames.observers.contains id
  | .setPaused id paused => w.frames.isPaused? id == some (!paused)
  | .tick now =>
    match w.frames.pulse now with
    | .accepted .. => true
    | _ => false
  | _ => true

/-- The step that a request takes at once, before any callback is called. -/
def commit (w : World κ ω) : Request κ → World κ ω
  | .register k => { w with frames := (w.frames.add k).2 }
  | .unregister id => { w with frames := (w.frames.remove id).2 }
  | .setPaused id paused =>
    { w with frames := w.frames.modify id fun o => { o with paused := paused } }
  | .onPause id k => { w with frames := w.frames.modify id fun o => { o with onPause := some k } }
  | .onClock k => { w with frames := { w.frames with onClock := some k } }
  | .tick now =>
    match w.frames.pulse now with
    | .accepted _ frames => { w with frames := frames }
    | _ => w
  | .clearFrames => { w with frames := w.frames.clear }
  | .bind chord k => { w with keys := (w.keys.bind chord k).2 }
  | .unbind chord => { w with keys := (w.keys.unbind chord).2 }
  | .observeKeys k => { w with keys := (w.keys.addObserver k).2 }
  | .ignoreKeys id => { w with keys := (w.keys.removeObserver id).2 }
  | .clearKeys => { w with keys := w.keys.clear }
  | .dispatch _ => { w with prevented := false }
  | .preventDefault => { w with prevented := true }
  | .isPaused _ | .isBound _ | .status => w

/-- The world as a callback finds it when it is called. -/
def enter (w : World κ ω) (b : Behaviour κ ω) (k : κ) (signal : Signal) : World κ ω :=
  { w with client := b.enter k signal w.client }

end World

/-- What is upheld by callbacks that do as `b` says. The relation `R` holds between the
world before and after whatever is done completely. `Asked r w w'` says that `r` has
been asked for at `w`, and nothing has come of it yet at `w'`; `During r w w'` says that
`w'` is a world in the middle of it. -/
structure Upkeep (b : Behaviour κ ω) (Asked During : Request κ → World κ ω → World κ ω → Prop)
    (R : World κ ω → World κ ω → Prop) : Prop where
  refl : ∀ w, R w w
  trans : ∀ {u v w}, R u v → R v w → R u w
  request : ∀ {k r w c}, b.request k w.client = some (r, c) → Asked r w { w with client := c }
  answer : ∀ k a w, R w { w with client := b.answer k a w.client }
  leave : ∀ k w, R w { w with client := b.leave k w.client }
  ignored : ∀ {r w w₁}, Asked r w w₁ → w₁.heeds r = false → R w w₁
  commit : ∀ {r w w₁}, Asked r w w₁ → w₁.heeds r = true → During r w (w₁.commit r)
  during : ∀ {r w w₁ w₂}, During r w w₁ → R w₁ w₂ → During r w w₂
  pause : ∀ {id paused w w₁} o k, During (.setPaused id paused) w w₁ →
    w₁.frames.observers[id]? = some o → o.onPause = some k →
    During (.setPaused id paused) w (w₁.enter b k (.pause id paused))
  /-- The clock goes on as it did, or nobody listens to it. -/
  refresh : ∀ {r w w₁}, During r w w₁ → r.stirs = true →
    w₁.frames.refresh.1 = none ∨ w₁.frames.refresh.2.onClock = none →
    R w { w₁ with frames := w₁.frames.refresh.2 }
  clock : ∀ {r w w₁} running k, During r w w₁ → r.stirs = true →
    w₁.frames.refresh.1 = some running → w₁.frames.refresh.2.onClock = some k →
    R w ({ w₁ with frames := w₁.frames.refresh.2 }.enter b k (.clock running))
  turn : ∀ {now w w₁ w₂ id k frames} tick, During (.tick now) w w₁ →
    w₁.frames.takeCallback? id = some (k, frames) →
    R ({ w₁ with frames := frames }.enter b k (.tick id tick)) w₂ →
    During (.tick now) w { w₂ with frames := w₂.frames.restore id k }
  shortcut : ∀ {event w w₁} k press, During (.dispatch event) w w₁ →
    During (.dispatch event) w (w₁.enter b k (.shortcut press false))
  key : ∀ {event w w₁} id k press prevented, During (.dispatch event) w w₁ →
    During (.dispatch event) w (w₁.enter b k (.key id press prevented))
  prevented : ∀ {event w w₁} prevented, During (.dispatch event) w w₁ →
    During (.dispatch event) w { w₁ with prevented := prevented }
  done : ∀ {r w w₁}, During r w w₁ → r.stirs = false → R w w₁

namespace Control

variable {b : Behaviour κ ω} {Asked During : Request κ → World κ ω → World κ ω → Prop}
variable {R : World κ ω → World κ ω → Prop} {call : Caller κ ω} {w w₁ : World κ ω}
variable {r : Request κ}

section Operations

variable (h : Upkeep b Asked During R)
  (hcall : ∀ k signal w, Ends (call k signal) w fun _ w' => R (w.enter b k signal) w')

include h hcall

/-- The clock is looked at last. -/
theorem ends_refreshClock (hmid : During r w w₁) (hr : r.stirs = true) :
    Ends (refreshClock call) w₁ fun _ w' => R w w' := by
  refine ends_get_bind (Ends.bind (ends_modify ?_))
  split
  · next running k hchange hk =>
    refine (hcall k (.clock running) _).mono ?_
    intro _ w' hw'
    exact h.trans (h.clock running k hmid hr hchange hk) hw'
  · next hquiet =>
    refine ends_pure (h.refresh hmid hr ?_)
    cases hchange : w₁.frames.refresh.1 with
    | none => exact .inl rfl
    | some running =>
      cases hk : w₁.frames.refresh.2.onClock with
      | none => exact .inr rfl
      | some k => exact (hquiet running k hchange hk).elim

theorem ends_deliver {now : Timestamp} (tick : FrameTick) (ids : List ObserverId) :
    ∀ w₁, During (.tick now) w w₁ →
      Ends (deliver call tick ids) w₁ fun _ w' => During (.tick now) w w' := by
  induction ids with
  | nil =>
    intro w₁ hmid
    exact ends_pure hmid
  | cons id ids ih =>
    intro w₁ hmid
    refine ends_get_bind ?_
    cases htake : w₁.frames.takeCallback? id with
    | none => exact Ends.bind (ends_pure (ih w₁ hmid))
    | some taken =>
      obtain ⟨k, frames⟩ := taken
      refine Ends.bind (ends_modify (Ends.bind ?_))
      refine (hcall k (.tick id tick) _).mono ?_
      intro _ w₂ hw₂
      exact ends_get_bind (Ends.bind (ends_modify (ih _ (h.turn tick hmid htake hw₂))))

theorem ends_announce {event : KeyEvent} (press : KeyPress)
    (observers : List (KeyObserverId × κ)) :
    ∀ w₁, During (.dispatch event) w w₁ →
      Ends (announce call press observers) w₁ fun _ w' => During (.dispatch event) w w' := by
  induction observers with
  | nil =>
    intro w₁ hmid
    exact ends_pure hmid
  | cons o observers ih =>
    intro w₁ hmid
    refine ends_get_bind (Ends.bind ((hcall o.2 _ w₁).mono ?_))
    intro _ w₂ hw₂
    exact ih w₂ (h.during (h.key o.1 o.2 press _ hmid) hw₂)

theorem ends_dispatch {event : KeyEvent}
    (hmid : During (.dispatch event) w (w₁.commit (.dispatch event))) :
    Ends (dispatch call event) w₁ fun _ w' => R w w' := by
  have finish : ∀ w₂, During (.dispatch event) w w₂ → Ends (do
      announce call (KeyPress.ofEvent event) w₁.keys.observers
      let prevented := (← get).prevented
      modify fun w => { w with prevented := w₁.prevented }
      return (⟨(w₁.keys.actionFor? (KeyPress.ofEvent event)).isSome, prevented⟩ : KeyDispatch)) w₂
      fun _ w' => R w w' := by
    intro w₂ hw₂
    refine Ends.bind ((ends_announce h hcall _ _ w₂ hw₂).mono ?_)
    intro _ w₃ hw₃
    exact ends_get_bind (Ends.bind (ends_modify (ends_pure (h.done (h.prevented _ hw₃) rfl))))
  refine ends_get_bind (Ends.bind (ends_modify ?_))
  dsimp only
  split
  · next k hk =>
    refine Ends.bind ((hcall k _ _).mono ?_)
    intro _ w₂ hw₂
    exact finish w₂ (h.during (h.shortcut k _ hmid) hw₂)
  · exact finish _ hmid

theorem ends_unregister {id : ObserverId} (hasked : Asked (.unregister id) w w₁) :
    Ends (unregister call id) w₁ fun _ w' => R w w' := by
  refine ends_get_bind ?_
  dsimp only
  cases hid : w₁.frames.observers.contains id with
  | false =>
    have hremove : w₁.frames.remove id = (false, w₁.frames) := by simp [FrameScheduler.remove, hid]
    rw [hremove]
    exact Ends.bind (ends_modify (ends_pure (h.ignored hasked hid)))
  | true =>
    have hremove : w₁.frames.remove id = (true, (w₁.commit (.unregister id)).frames) := by
      simp [World.commit, FrameScheduler.remove, hid]
    rw [hremove]
    refine Ends.bind (ends_modify (Ends.bind ?_))
    refine (ends_refreshClock h hcall (h.commit hasked hid) rfl).mono ?_
    intro _ w₂ hw₂
    exact ends_pure hw₂

theorem ends_setPaused {id : ObserverId} {paused : Bool}
    (hasked : Asked (.setPaused id paused) w w₁) :
    Ends (setPaused call id paused) w₁ fun _ w' => R w w' := by
  refine ends_get_bind ?_
  dsimp only
  cases ho : w₁.frames.observers[id]? with
  | none =>
    refine ends_pure (h.ignored hasked ?_)
    simp [World.heeds, FrameScheduler.isPaused?, ho]
  | some o =>
    dsimp only
    split
    · next hsame =>
      refine ends_pure (h.ignored hasked ?_)
      cases paused <;> simp [World.heeds, FrameScheduler.isPaused?, ho, hsame]
    · next hother =>
      have hheeds : w₁.heeds (.setPaused id paused) = true := by
        cases paused <;> simp_all [World.heeds, FrameScheduler.isPaused?]
      have hmid := h.commit hasked hheeds
      have ho' : (w₁.commit (.setPaused id paused)).frames.observers[id]? =
          some { o with paused := paused } := by
        simp [World.commit, FrameScheduler.modify, ho]
      refine Ends.bind (ends_modify ?_)
      split
      · next k hk =>
        refine Ends.bind ((hcall k _ _).mono ?_)
        intro _ w₂ hw₂
        refine Ends.bind ((ends_refreshClock h hcall
          (h.during (h.pause _ k hmid ho' hk) hw₂) rfl).mono ?_)
        intro _ w₃ hw₃
        exact ends_pure hw₃
      · refine Ends.bind ((ends_refreshClock h hcall hmid rfl).mono ?_)
        intro _ w₃ hw₃
        exact ends_pure hw₃

theorem ends_tick {now : Timestamp} (hasked : Asked (.tick now) w w₁) :
    Ends (tick call now) w₁ fun _ w' => R w w' := by
  refine ends_get_bind ?_
  cases hp : w₁.frames.pulse now with
  | ignored =>
    refine ends_pure (h.ignored hasked ?_)
    simp [World.heeds, hp]
  | overflow => exact ends_throw _
  | accepted tick frames =>
    have hmid := h.commit hasked (by simp [World.heeds, hp])
    have hw : w₁.commit (.tick now) = { w₁ with frames := frames } := by
      simp [World.commit, hp]
    rw [hw] at hmid
    refine Ends.bind (ends_modify (Ends.bind ?_))
    refine (ends_deliver h hcall tick frames.due _ hmid).mono ?_
    intro _ w₂ hw₂
    exact ends_pure (h.done hw₂ rfl)

/-- A request that is carried out upholds what its steps do. -/
theorem ends_perform (hasked : Asked r w w₁) :
    Ends (perform call r) w₁ fun _ w' => R w w' := by
  -- requests that are done with the step they take at once
  have atOnce : w₁.heeds r = true → r.stirs = false → R w (w₁.commit r) :=
    fun hheeds hr => h.done (h.commit hasked hheeds) hr
  cases r with
  | register k =>
    refine Ends.map _ (ends_get_bind (Ends.bind (ends_modify (Ends.bind ?_))))
    refine (ends_refreshClock h hcall (h.commit hasked rfl) rfl).mono ?_
    intro _ w₂ hw₂
    exact ends_pure hw₂
  | unregister id => exact Ends.map _ (ends_unregister h hcall hasked)
  | setPaused id paused => exact Ends.map _ (ends_setPaused h hcall hasked)
  | isPaused id => exact ends_get_bind (ends_pure (atOnce rfl rfl))
  | onPause id k => exact ends_get_bind (Ends.bind (ends_modify (ends_pure (atOnce rfl rfl))))
  | onClock k => exact Ends.bind (ends_modify (ends_pure (atOnce rfl rfl)))
  | tick now => exact Ends.map _ (ends_tick h hcall hasked)
  | clearFrames =>
    refine Ends.bind (ends_get_bind (Ends.bind (ends_modify ?_)))
    refine (ends_refreshClock h hcall (h.commit hasked rfl) rfl).mono ?_
    intro _ w₂ hw₂
    exact ends_pure hw₂
  | status => exact ends_get_bind (ends_pure (atOnce rfl rfl))
  | bind chord k => exact ends_get_bind (Ends.bind (ends_modify (ends_pure (atOnce rfl rfl))))
  | unbind chord => exact ends_get_bind (Ends.bind (ends_modify (ends_pure (atOnce rfl rfl))))
  | isBound chord => exact ends_get_bind (ends_pure (atOnce rfl rfl))
  | observeKeys k => exact ends_get_bind (Ends.bind (ends_modify (ends_pure (atOnce rfl rfl))))
  | ignoreKeys id => exact ends_get_bind (Ends.bind (ends_modify (ends_pure (atOnce rfl rfl))))
  | dispatch event => exact Ends.map _ (ends_dispatch h hcall (h.commit hasked rfl))
  | clearKeys => exact ends_get_bind (Ends.bind (ends_modify (ends_pure (atOnce rfl rfl))))
  | preventDefault => exact Ends.bind (ends_modify (ends_pure (atOnce rfl rfl)))

end Operations

/-- A callback that returns has upheld what the steps do that it asked for. -/
theorem ends_call (h : Upkeep b Asked During R) (budget : Nat) :
    (∀ k signal w, Ends (Control.call b budget k signal) w
      fun _ w' => R (w.enter b k signal) w') ∧
    ∀ k w, Ends (serve b budget k) w fun _ w' => R w w' := by
  induction budget with
  | zero =>
    constructor
    · intro k signal w
      rw [Control.call]
      exact ends_throw _
    · intro k w
      rw [serve]
      exact ends_throw _
  | succ budget ih =>
    obtain ⟨hcall, hserve⟩ := ih
    constructor
    · intro k signal w
      rw [Control.call]
      refine Ends.bind (ends_modify (Ends.bind ((hserve k _).mono ?_)))
      intro _ w₁ hw₁
      exact ends_modify (h.trans hw₁ (h.leave k w₁))
    · intro k w
      rw [serve]
      refine ends_get_bind ?_
      cases hr : b.request k w.client with
      | none => exact ends_pure (h.refl w)
      | some asked =>
        obtain ⟨r, c⟩ := asked
        refine Ends.bind (ends_modify (Ends.bind ?_))
        refine (ends_perform h hcall (h.request hr)).mono ?_
        intro a w₁ hw₁
        refine Ends.bind (ends_modify ((hserve k _).mono ?_))
        intro _ w₂ hw₂
        exact h.trans (h.trans hw₁ (h.answer k a w₁)) hw₂

/-- A request from outside any callback. -/
theorem ends_run (h : Upkeep b Asked During R) (budget : Nat) (hasked : Asked r w w₁) :
    Ends (run b budget r) w₁ fun _ w' => R w w' :=
  ends_perform h (ends_call h budget).1 hasked

end Control

end ViewHost
