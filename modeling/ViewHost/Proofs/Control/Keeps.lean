import ViewHost.Control.Run
import ViewHost.Proofs.Control.Runs
import ViewHost.Proofs.Control.Tame

/-!
# What operations of the control thread keep

An operation takes its own steps and calls callbacks in between, which may take
further steps. To know how the world after an operation is related to the one
before, it is enough to know it of the calls: the operation's own steps change
neither the state of the callbacks nor, a tick apart, the number of ticks.

Tame tokens may be called on any occasion, the others by ticks only. A relation
that holds of the calls of tame tokens holds of everything but ticks, and of ticks
too if one more tick makes up for what the other calls do.
-/

namespace ViewHost

open Run

variable {κ ω β : Type} {tame : κ → Prop}

namespace Control

/-! ## Runs -/

/-- A run from `w` leaves a tame world that is related to `w`. -/
abbrev KeepsAt (tame : κ → Prop) (R : World κ ω → World κ ω → Prop) (m : Control κ ω β)
    (w : World κ ω) : Prop :=
  Run.KeepsAt (World.Tame tame) R m w

/-- Runs lead from tame worlds to tame worlds that are related to them. -/
abbrev Keeps (tame : κ → Prop) (R : World κ ω → World κ ω → Prop) (m : Control κ ω β) : Prop :=
  Run.Keeps (World.Tame tame) R m

/-- A relation that an operation keeps with its own steps. -/
structure Lax (R : World κ ω → World κ ω → Prop) : Prop extends Run.Lasting R where
  of_client : ∀ {w w'}, w'.client = w.client → w'.frames.delivered = w.frames.delivered → R w w'
  refl w := of_client (w := w) rfl rfl

variable {R D : World κ ω → World κ ω → Prop} {w : World κ ω}

namespace Lax

/-- A step that changes neither client nor tick count, and keeps the world tame. -/
theorem keepsAt_modify (hR : Lax R) {g : World κ ω → World κ ω} (htame : (g w).Tame tame)
    (hclient : (g w).client = w.client)
    (hdelivered : (g w).frames.delivered = w.frames.delivered) :
    KeepsAt tame R (modify g : Control κ ω Unit) w :=
  ⟨htame, hR.of_client hclient hdelivered⟩

theorem keepsAt_setFrames (hR : Lax R) (hw : w.Tame tame) {frames : FrameScheduler κ}
    (htame : frames.Tame tame) (hdelivered : frames.delivered = w.frames.delivered) :
    KeepsAt tame R (setFrames frames) w :=
  hR.keepsAt_modify ⟨htame, hw.keys⟩ rfl hdelivered

theorem keepsAt_setKeys (hR : Lax R) (hw : w.Tame tame) {keys : ShortcutRegistry κ}
    (htame : keys.Tame tame) : KeepsAt tame R (setKeys keys) w :=
  hR.keepsAt_modify ⟨hw.frames, htame⟩ rfl rfl

end Lax

/-! ## Operations -/

section Operations

variable {call : Caller κ ω} (hR : Lax R)
  (hcall : ∀ k signal, tame k → Keeps tame R (call k signal))

include hR hcall

theorem keeps_refreshClock : Keeps tame R (refreshClock call) := by
  intro w hw
  refine keepsAt_get_bind (hR.keepsAt_bind (hR.keepsAt_setFrames hw hw.frames.refresh
    (FrameScheduler.delivered_refresh _)) fun _ w' hw' => ?_)
  split
  · next k _ hk => exact hcall k _ (hw.frames.refresh.onClock k hk) w' hw'
  · exact hR.keepsAt_pure hw' ()

/-- A step and the clock's reaction to it. -/
theorem keepsAt_step (hw : w.Tame tame) {frames : FrameScheduler κ} (hframes : frames.Tame tame)
    (hdelivered : frames.delivered = w.frames.delivered) (b : β) :
    KeepsAt tame R (do setFrames frames; refreshClock call; return b) w :=
  hR.keepsAt_bind (hR.keepsAt_setFrames hw hframes hdelivered) fun _ =>
    hR.keeps_bind (keeps_refreshClock hR hcall) fun _ _ hw => hR.keepsAt_pure hw b

theorem keeps_register (k : κ) : Keeps tame R (register call k) := by
  intro w hw
  exact keepsAt_get_bind (keepsAt_step hR hcall hw (hw.frames.add k) rfl _)

theorem keeps_unregister (id : ObserverId) : Keeps tame R (unregister call id) := by
  intro w hw
  refine keepsAt_get_bind (hR.keepsAt_bind (hR.keepsAt_setFrames hw (hw.frames.remove id)
    (FrameScheduler.delivered_remove _ id)) fun _ w' hw' => ?_)
  split
  · exact hR.keepsAt_bind (keeps_refreshClock hR hcall w' hw') fun _ w hw => hR.keepsAt_pure hw _
  · exact hR.keepsAt_bind (hR.keepsAt_pure hw' _) fun _ w hw => hR.keepsAt_pure hw _

theorem keeps_setPaused (id : ObserverId) (paused : Bool) :
    Keeps tame R (setPaused call id paused) := by
  intro w hw
  refine keepsAt_get_bind ?_
  dsimp only
  cases ho : w.frames.observers[id]? with
  | none => exact hR.keepsAt_pure hw _
  | some o =>
    dsimp only
    split
    · exact hR.keepsAt_pure hw _
    · refine hR.keepsAt_bind (hR.keepsAt_setFrames hw (hw.frames.modify fun _ _ => .inl)
        (FrameScheduler.delivered_modify ..)) fun _ w' hw' => ?_
      have finish : Keeps tame R (do refreshClock call; return true) :=
        hR.keeps_bind (keeps_refreshClock hR hcall) fun _ _ hw => hR.keepsAt_pure hw _
      split
      · next k hk =>
        exact hR.keepsAt_bind (hcall k _ (hw.frames.onPause id o k ho hk) w' hw') fun _ => finish
      · exact finish w' hw'

theorem keeps_clearFrames : Keeps tame R (clearFrames call) := by
  intro w hw
  exact keepsAt_get_bind (hR.keepsAt_bind (hR.keepsAt_setFrames hw hw.frames.clear rfl) fun _ =>
    keeps_refreshClock hR hcall)

theorem keeps_announce (press : KeyPress) (observers : List (KeyObserverId × κ))
    (htame : ∀ o ∈ observers, tame o.2) : Keeps tame R (announce call press observers) := by
  induction observers with
  | nil => exact fun w hw => hR.keepsAt_pure hw ()
  | cons o observers ih =>
    intro w hw
    rw [List.forall_mem_cons] at htame
    exact keepsAt_get_bind (hR.keepsAt_bind (hcall o.2 _ htame.1 w hw) fun _ => ih htame.2)

theorem keeps_dispatch (event : KeyEvent) : Keeps tame R (dispatch call event) := by
  intro w hw
  have prevent : ∀ b, Keeps tame R
      (modify fun w => { w with prevented := b } : Control κ ω Unit) := fun b w hw =>
    hR.keepsAt_modify ⟨hw.frames, hw.keys⟩ rfl rfl
  refine keepsAt_get_bind (hR.keepsAt_bind (prevent false w hw) fun _ w' hw' => ?_)
  have finish : Keeps tame R (do
      announce call (KeyPress.ofEvent event) w.keys.observers
      let prevented := (← get).prevented
      modify fun w' => { w' with prevented := w.prevented }
      return (⟨(w.keys.actionFor? (KeyPress.ofEvent event)).isSome, prevented⟩ : KeyDispatch)) :=
    hR.keeps_bind (keeps_announce hR hcall _ _ hw.keys.observers) fun _ w₁ hw₁ =>
      keepsAt_get_bind (hR.keepsAt_bind (prevent _ w₁ hw₁) fun _ _ hw => hR.keepsAt_pure hw _)
  dsimp only
  split
  · next k hk =>
    exact hR.keepsAt_bind (hcall k _ (hw.keys.of_actionFor? hk) w' hw') fun _ => finish
  · exact finish w' hw'

end Operations

section Ticks

variable {call : Caller κ ω} (hR : Lax R) (hD : Lax D)
  (htick : ∀ k id tick, Keeps tame D (call k (.tick id tick)))
  (hDR : ∀ w w₁ w', w₁.client = w.client → w₁.frames.delivered = w.frames.delivered + 1 →
    D w₁ w' → R w w')

theorem keeps_deliver (hD : Lax D) (htick : ∀ k id tick, Keeps tame D (call k (.tick id tick)))
    (tick : FrameTick) (ids : List ObserverId) : Keeps tame D (deliver call tick ids) := by
  induction ids with
  | nil => exact fun w hw => hD.keepsAt_pure hw ()
  | cons id ids ih =>
    intro w hw
    refine keepsAt_get_bind ?_
    cases hk : w.frames.takeCallback? id with
    | none => exact hD.keepsAt_bind (hD.keepsAt_pure hw ()) fun _ => ih
    | some taken =>
      refine hD.keepsAt_bind (hD.keepsAt_setFrames hw (hw.frames.takeCallback? hk)
        (FrameScheduler.delivered_takeCallback? hk)) fun _ => ?_
      refine hD.keeps_bind (htick taken.1 id tick) fun _ w' hw' => ?_
      refine keepsAt_get_bind (hD.keepsAt_bind (hD.keepsAt_setFrames hw'
        (hw'.frames.restore id taken.1) (FrameScheduler.delivered_modify ..)) fun _ => ih)

include hR hD htick hDR

theorem keeps_tick (now : Timestamp) : Keeps tame R (tick call now) := by
  intro w hw
  refine keepsAt_get_bind ?_
  cases hp : w.frames.pulse now with
  | ignored => exact hR.keepsAt_pure hw _
  | overflow => exact hR.keepsAt_pure hw ()
  | accepted tick frames =>
    let w₁ : World κ ω := { w with frames := frames }
    have hw₁ : w₁.Tame tame := ⟨hw.frames.accepted hp, hw.keys⟩
    have hdelivered : frames.delivered = w.frames.delivered + 1 := by
      rw [(FrameScheduler.pulse_eq_accepted hp).2]
    have hrest : KeepsAt tame D (do deliver call tick frames.due; return some tick) w₁ :=
      hD.keepsAt_bind (keeps_deliver hD htick tick _ _ hw₁) fun _ _ hw => hD.keepsAt_pure hw _
    exact ⟨hrest.1, hDR w w₁ _ rfl hdelivered hrest.2⟩

end Ticks

end Control

/-- Relations for what operations do, `R`, and for what the deliveries of a tick do
within one, `D`. The tick count is all there is to tell them apart. -/
structure Control.Regime (R D : World κ ω → World κ ω → Prop) : Prop where
  outer : Control.Lax R
  inner : Control.Lax D
  weaken : ∀ {w w'}, R w w' → D w w'
  ticked : ∀ w w₁ w', w₁.client = w.client → w₁.frames.delivered = w.frames.delivered + 1 →
    D w₁ w' → R w w'

/-- Callbacks ask for nothing that is not tame, and what they do is within the
relations, tame ones at any time and the others at a tick. -/
structure Behaviour.Obeys (b : Behaviour κ ω) (tame : κ → Prop)
    (R D : World κ ω → World κ ω → Prop) : Prop where
  tame_request : ∀ {k c r c'}, b.request k c = some (r, c') → r.Tame tame
  enter : ∀ {k} signal w, tame k → R w { w with client := b.enter k signal w.client }
  enterTick : ∀ k id tick w, D w { w with client := b.enter k (.tick id tick) w.client }
  request : ∀ {k w r c}, b.request k w.client = some (r, c) → R w { w with client := c }
  answer : ∀ k a w, R w { w with client := b.answer k a w.client }
  leave : ∀ k w, R w { w with client := b.leave k w.client }

namespace Control

variable {R D : World κ ω → World κ ω → Prop}

theorem keeps_perform {call : Caller κ ω} (hRD : Regime R D)
    (hcall : ∀ k signal, tame k → Keeps tame R (call k signal))
    (htick : ∀ k id tick, Keeps tame D (call k (.tick id tick))) {r : Request κ}
    (hr : r.Tame tame) : Keeps tame R (perform call r) := by
  have hR := hRD.outer
  -- a step on the scheduler or the registry that calls nobody
  have stepFrames : ∀ {w : World κ ω} {frames : FrameScheduler κ}, w.Tame tame →
      frames.Tame tame → frames.delivered = w.frames.delivered → ∀ a : Answer,
      KeepsAt tame R (do setFrames frames; return a) w := fun hw hframes hdelivered a =>
    hR.keepsAt_bind (hR.keepsAt_setFrames hw hframes hdelivered) fun _ _ hw => hR.keepsAt_pure hw a
  have stepKeys : ∀ {w : World κ ω} {keys : ShortcutRegistry κ}, w.Tame tame →
      keys.Tame tame → ∀ a : Answer, KeepsAt tame R (do setKeys keys; return a) w :=
    fun hw hkeys a => hR.keepsAt_bind (hR.keepsAt_setKeys hw hkeys) fun _ _ hw =>
      hR.keepsAt_pure hw a
  intro w hw
  cases r with
  | register k => exact hR.keeps_map (keeps_register hR hcall k) _ w hw
  | unregister id => exact hR.keeps_map (keeps_unregister hR hcall id) _ w hw
  | setPaused id paused => exact hR.keeps_map (keeps_setPaused hR hcall id paused) _ w hw
  | isPaused id => exact keepsAt_get_bind (hR.keepsAt_pure hw _)
  | onPause id k =>
    refine keepsAt_get_bind (stepFrames hw (hw.frames.modify fun o k' hk' => .inr ?_)
      (FrameScheduler.delivered_modify ..) _)
    cases hk'
    exact hr
  | onClock k =>
    refine hR.keepsAt_bind (hR.keepsAt_modify ⟨⟨fun k' hk' => ?_, hw.frames.onPause⟩, hw.keys⟩
      rfl rfl) fun _ _ hw => hR.keepsAt_pure hw _
    cases hk'
    exact hr
  | tick now =>
    exact hR.keeps_map (keeps_tick hR hRD.inner htick hRD.ticked now) _ w hw
  | clearFrames =>
    exact hR.keepsAt_bind (keeps_clearFrames hR hcall w hw) fun _ _ hw => hR.keepsAt_pure hw _
  | status => exact keepsAt_get_bind (hR.keepsAt_pure hw _)
  | bind chord k => exact keepsAt_get_bind (stepKeys hw (hw.keys.bind chord hr) _)
  | unbind chord => exact keepsAt_get_bind (stepKeys hw (hw.keys.unbind chord) _)
  | isBound chord => exact keepsAt_get_bind (hR.keepsAt_pure hw _)
  | observeKeys k => exact keepsAt_get_bind (stepKeys hw (hw.keys.addObserver hr) _)
  | ignoreKeys id => exact keepsAt_get_bind (stepKeys hw (hw.keys.removeObserver id) _)
  | dispatch event => exact hR.keeps_map (keeps_dispatch hR hcall event) _ w hw
  | clearKeys => exact keepsAt_get_bind (stepKeys hw .clear _)
  | preventDefault =>
    exact hR.keepsAt_bind (hR.keepsAt_modify ⟨hw.frames, hw.keys⟩ rfl rfl) fun _ _ hw =>
      hR.keepsAt_pure hw _

variable {b : Behaviour κ ω}

/-- What holds of the callbacks' own doings holds of their calls, with all that
they ask for. -/
theorem keeps_call (hRD : Regime R D) (hb : b.Obeys tame R D) (budget : Nat) :
    (∀ k signal, tame k → Keeps tame R (call b budget k signal)) ∧
    (∀ k id tick, Keeps tame D (call b budget k (.tick id tick))) ∧
    ∀ k, Keeps tame R (serve b budget k) := by
  have hR := hRD.outer
  induction budget with
  | zero =>
    refine ⟨fun k signal _ w hw => ?_, fun k id tick w hw => ?_, fun k w hw => ?_⟩
    · rw [call]
      exact hR.keepsAt_pure hw ()
    · rw [call]
      exact hRD.inner.keepsAt_pure hw ()
    · rw [serve]
      exact hR.keepsAt_pure hw ()
  | succ budget ih =>
    obtain ⟨hcall, htick, hserve⟩ := ih
    have leave : ∀ k, Keeps tame R
        (modify fun w => { w with client := b.leave k w.client } : Control κ ω Unit) :=
      fun k w hw => ⟨⟨hw.frames, hw.keys⟩, hb.leave k w⟩
    refine ⟨fun k signal hk w hw => ?_, fun k id tick w hw => ?_, fun k w hw => ?_⟩
    · rw [call]
      refine hR.keepsAt_bind ⟨⟨hw.frames, hw.keys⟩, hb.enter signal w hk⟩ fun _ => ?_
      exact hR.keeps_bind (hserve k) fun _ => leave k
    · rw [call]
      refine hRD.inner.keepsAt_bind ⟨⟨hw.frames, hw.keys⟩, hb.enterTick k id tick w⟩ fun _ => ?_
      exact hRD.inner.keeps_bind ((hserve k).mono fun _ _ => hRD.weaken) fun _ =>
        (leave k).mono fun _ _ => hRD.weaken
    · rw [serve]
      refine keepsAt_get_bind ?_
      cases hr : b.request k w.client with
      | none => exact hR.keepsAt_pure hw ()
      | some asked =>
        refine hR.keepsAt_bind ⟨⟨hw.frames, hw.keys⟩, hb.request hr⟩ fun _ => ?_
        refine hR.keeps_bind (keeps_perform hRD hcall htick (hb.tame_request hr)) fun a => ?_
        refine hR.keeps_bind (fun w hw => ⟨⟨hw.frames, hw.keys⟩, hb.answer k a w⟩) fun _ => ?_
        exact hserve k

end Control

end ViewHost
