import ViewHost.Control.Run

/-!
# Runs do not depend on what callbacks keep to themselves

The control thread knows of callbacks what they ask for and nothing else. So if the
states of some callbacks are mapped to states of others, in which these ask for the
same, then each run is mapped to a run: it ends or stops short as the first one does,
with the same answer, and leaves the same scheduler and the same registry.
-/

namespace ViewHost

variable {κ ω ω' β γ : Type} {f : ω → ω'}

/-- The same world with another state of the callbacks. -/
def World.mapClient (f : ω → ω') (w : World κ ω) : World κ ω' :=
  ⟨w.frames, w.keys, w.prevented, f w.client⟩

/-- In the states that those of `b` are mapped to, `b'` does the same. -/
structure Behaviour.Mirrors (f : ω → ω') (b : Behaviour κ ω) (b' : Behaviour κ ω') : Prop where
  enter : ∀ k signal c, b'.enter k signal (f c) = f (b.enter k signal c)
  request : ∀ k c, b'.request k (f c) = (b.request k c).map fun (r, c') => (r, f c')
  answer : ∀ k a c, b'.answer k a (f c) = f (b.answer k a c)
  leave : ∀ k c, b'.leave k (f c) = f (b.leave k c)

namespace Control

def mapResult (f : ω → ω') :
    EStateM.Result Halt (World κ ω) β → EStateM.Result Halt (World κ ω') β
  | .ok a w => .ok a (w.mapClient f)
  | .error e w => .error e (w.mapClient f)

/-- From a world that `w` is mapped to, `m'` does what `m` does from `w`. -/
def MirrorsAt (f : ω → ω') (m : Control κ ω β) (m' : Control κ ω' β) (w : World κ ω) : Prop :=
  m' (w.mapClient f) = mapResult f (m w)

def Mirrors (f : ω → ω') (m : Control κ ω β) (m' : Control κ ω' β) : Prop :=
  ∀ w, MirrorsAt f m m' w

variable {m : Control κ ω β} {m' : Control κ ω' β} {w : World κ ω}

theorem mirrors_pure (a : β) : Mirrors f (pure a : Control κ ω β) (pure a) := fun _ => rfl

theorem mirrors_throw (e : Halt) : Mirrors f (throw e : Control κ ω β) (throw e) := fun _ => rfl

theorem mirrors_prevent (prevented : Bool) :
    Mirrors f (modify fun w => { w with prevented := prevented } : Control κ ω Unit)
      (modify fun w => { w with prevented := prevented }) := fun _ => rfl

theorem mirrors_modifyClient {u : ω → ω} {v : ω' → ω'} (h : ∀ c, v (f c) = f (u c)) :
    Mirrors f (modify fun w => { w with client := u w.client } : Control κ ω Unit)
      (modify fun w => { w with client := v w.client }) :=
  fun w => congrArg (fun c => EStateM.Result.ok () (World.mk w.frames w.keys w.prevented c))
    (h w.client)

theorem mirrors_setClient (client : ω) :
    Mirrors f (modify fun w => { w with client := client } : Control κ ω Unit)
      (modify fun w => { w with client := f client }) := fun _ => rfl

theorem mirrorsAt_get_bind {next : World κ ω → Control κ ω γ} {next' : World κ ω' → Control κ ω' γ}
    (h : MirrorsAt f (next w) (next' (w.mapClient f)) w) :
    MirrorsAt f (get >>= next) (get >>= next') w := h

theorem MirrorsAt.bind {next : β → Control κ ω γ} {next' : β → Control κ ω' γ}
    (hm : MirrorsAt f m m' w) (hnext : ∀ a, Mirrors f (next a) (next' a)) :
    MirrorsAt f (m >>= next) (m' >>= next') w := by
  rw [MirrorsAt] at hm ⊢
  cases hrun : m w with
  | ok a w₁ =>
    rw [hrun] at hm
    simp only [Bind.bind, EStateM.bind, hrun, hm]
    exact hnext a w₁
  | error e w₁ =>
    rw [hrun] at hm
    simp only [Bind.bind, EStateM.bind, hrun, hm, mapResult]

theorem Mirrors.bind {next : β → Control κ ω γ} {next' : β → Control κ ω' γ}
    (hm : Mirrors f m m') (hnext : ∀ a, Mirrors f (next a) (next' a)) :
    Mirrors f (m >>= next) (m' >>= next') :=
  fun w => (hm w).bind hnext

theorem Mirrors.map (g : β → γ) (hm : Mirrors f m m') : Mirrors f (g <$> m) (g <$> m') := by
  rw [map_eq_pure_bind, map_eq_pure_bind]
  exact hm.bind fun a => mirrors_pure (g a)

/-! ## Operations -/

theorem mirrors_setFrames (frames : FrameScheduler κ) :
    Mirrors f (setFrames frames : Control κ ω Unit) (setFrames frames) := fun _ => rfl

section

variable {call : Caller κ ω} {call' : Caller κ ω'}
  (hcall : ∀ k signal, Mirrors f (call k signal) (call' k signal))

include hcall

theorem mirrors_refreshClock : Mirrors f (refreshClock call) (refreshClock call') := by
  intro w
  refine mirrorsAt_get_bind ?_
  dsimp only [World.mapClient]
  obtain ⟨change, frames⟩ := w.frames.refresh
  refine (mirrors_setFrames frames w).bind fun _ => ?_
  cases change with
  | none => exact mirrors_pure ()
  | some running =>
    dsimp only
    cases frames.onClock with
    | none => exact mirrors_pure ()
    | some k => exact hcall k _

theorem mirrors_register (k : κ) : Mirrors f (register call k) (register call' k) := by
  intro w
  refine mirrorsAt_get_bind ((mirrors_setFrames _ w).bind fun _ => ?_)
  exact (mirrors_refreshClock hcall).bind fun _ => mirrors_pure _

theorem mirrors_unregister (id : ObserverId) :
    Mirrors f (unregister call id) (unregister call' id) := by
  intro w
  refine mirrorsAt_get_bind ?_
  dsimp only [World.mapClient]
  obtain ⟨there, frames⟩ := w.frames.remove id
  refine (mirrors_setFrames frames w).bind fun _ => ?_
  cases there with
  | false => exact mirrors_pure false
  | true => exact (mirrors_refreshClock hcall).bind fun _ => mirrors_pure true

theorem mirrors_setPaused (id : ObserverId) (paused : Bool) :
    Mirrors f (setPaused call id paused) (setPaused call' id paused) := by
  intro w
  refine mirrorsAt_get_bind ?_
  dsimp only [World.mapClient]
  cases w.frames.observers[id]? with
  | none => exact mirrors_pure _ w
  | some o =>
    dsimp only
    split
    · exact mirrors_pure _ w
    · have finish : Mirrors f (do refreshClock call; return true)
          (do refreshClock call'; return true) :=
        (mirrors_refreshClock hcall).bind fun _ => mirrors_pure _
      refine (mirrors_setFrames _ w).bind fun _ => ?_
      cases o.onPause with
      | none => exact finish
      | some k => exact (hcall k _).bind fun _ => finish

theorem mirrors_deliver (tick : FrameTick) (ids : List ObserverId) :
    Mirrors f (deliver call tick ids) (deliver call' tick ids) := by
  induction ids with
  | nil => exact mirrors_pure ()
  | cons id ids ih =>
    intro w
    refine mirrorsAt_get_bind ?_
    dsimp only [World.mapClient]
    cases w.frames.takeCallback? id with
    | none => exact (mirrors_pure () w).bind fun _ => ih
    | some taken =>
      refine (mirrors_setFrames _ w).bind fun _ => (hcall taken.1 _).bind fun _ w' => ?_
      exact mirrorsAt_get_bind ((mirrors_setFrames _ w').bind fun _ => ih)

theorem mirrors_tick (now : Timestamp) : Mirrors f (tick call now) (tick call' now) := by
  intro w
  refine mirrorsAt_get_bind ?_
  dsimp only [World.mapClient]
  cases w.frames.pulse now with
  | ignored => exact mirrors_pure _ w
  | overflow => exact mirrors_throw _ w
  | accepted tick frames =>
    refine (mirrors_setFrames _ w).bind fun _ => ?_
    exact (mirrors_deliver hcall tick _).bind fun _ => mirrors_pure _

theorem mirrors_clearFrames : Mirrors f (clearFrames call) (clearFrames call') := by
  intro w
  exact mirrorsAt_get_bind ((mirrors_setFrames _ w).bind fun _ => mirrors_refreshClock hcall)

theorem mirrors_announce (press : KeyPress) (observers : List (KeyObserverId × κ)) :
    Mirrors f (announce call press observers) (announce call' press observers) := by
  induction observers with
  | nil => exact mirrors_pure ()
  | cons o observers ih =>
    intro w
    exact mirrorsAt_get_bind ((hcall o.2 _ w).bind fun _ => ih)

theorem mirrors_dispatch (event : KeyEvent) :
    Mirrors f (dispatch call event) (dispatch call' event) := by
  intro w
  refine mirrorsAt_get_bind ?_
  dsimp only [World.mapClient]
  refine (mirrors_prevent false w).bind fun _ => ?_
  cases w.keys.actionFor? (KeyPress.ofEvent event) with
  | none =>
    refine (mirrors_announce hcall _ _).bind fun _ w' => mirrorsAt_get_bind ?_
    exact (mirrors_prevent w.prevented w').bind fun _ => mirrors_pure _
  | some k =>
    refine (hcall k _).bind fun _ => (mirrors_announce hcall _ _).bind fun _ w' => ?_
    exact mirrorsAt_get_bind ((mirrors_prevent w.prevented w').bind fun _ => mirrors_pure _)

theorem mirrors_perform (r : Request κ) : Mirrors f (perform call r) (perform call' r) := by
  cases r with
  | register k => exact (mirrors_register hcall k).map _
  | unregister id => exact (mirrors_unregister hcall id).map _
  | setPaused id paused => exact (mirrors_setPaused hcall id paused).map _
  | isPaused id => exact fun _ => rfl
  | onPause id k => exact fun _ => rfl
  | onClock k => exact fun _ => rfl
  | tick now => exact (mirrors_tick hcall now).map _
  | clearFrames => exact (mirrors_clearFrames hcall).bind fun _ => mirrors_pure _
  | status => exact fun _ => rfl
  | bind chord k => exact fun _ => rfl
  | unbind chord => exact fun _ => rfl
  | isBound chord => exact fun _ => rfl
  | observeKeys k => exact fun _ => rfl
  | ignoreKeys id => exact fun _ => rfl
  | dispatch event => exact (mirrors_dispatch hcall event).map _
  | clearKeys => exact fun _ => rfl
  | preventDefault => exact fun _ => rfl

end

/-! ## Callbacks -/

variable {b : Behaviour κ ω} {b' : Behaviour κ ω'}

/-- The induction is on the budget, which callbacks and their requests share. -/
theorem mirrors_call (hb : b.Mirrors f b') (budget : Nat) :
    (∀ k signal, Mirrors f (call b budget k signal) (call b' budget k signal)) ∧
      ∀ k, Mirrors f (serve b budget k) (serve b' budget k) := by
  induction budget with
  | zero =>
    refine ⟨fun _ _ => ?_, fun _ => ?_⟩
    · rw [call, call]
      exact mirrors_throw _
    · rw [serve, serve]
      exact mirrors_throw _
  | succ budget ih =>
    obtain ⟨hcall, hserve⟩ := ih
    refine ⟨fun k signal => ?_, fun k w => ?_⟩
    · rw [call, call]
      exact (mirrors_modifyClient (hb.enter k signal)).bind fun _ => (hserve k).bind fun _ =>
        mirrors_modifyClient (hb.leave k)
    · rw [serve, serve]
      refine mirrorsAt_get_bind ?_
      have hrequest : b'.request k (w.mapClient f).client = _ := hb.request k w.client
      rw [hrequest]
      cases b.request k w.client with
      | none => exact mirrors_pure () w
      | some asked =>
        obtain ⟨r, client⟩ := asked
        refine (mirrors_setClient client w).bind fun _ => ?_
        exact (mirrors_perform hcall r).bind fun a =>
          (mirrors_modifyClient (hb.answer k a)).bind fun _ => hserve k

/-- Runs of callbacks are mapped to runs of those that mirror them. -/
theorem run_mapClient (hb : b.Mirrors f b') (budget : Nat) (r : Request κ) (w : World κ ω) :
    run b' budget r (w.mapClient f) = mapResult f (run b budget r w) :=
  mirrors_perform (mirrors_call hb budget).1 r w

end Control

end ViewHost
