import ViewHost.Proofs.Control.Course
import ViewHost.Proofs.Shortcut.Dispatch

/-!
# Requests that handle no key

While a key event is handled, callbacks may ask for anything. But for the dispatch of another
event, and for the wish that the platform leave the key alone, what they ask for has nothing
to do with the event: it changes the scheduler or the registry, and calls frame observers and
listeners, no action and no key observer. So a relation between worlds that such changes do
not matter to is kept by these requests if it is kept by such calls.
-/

namespace ViewHost

open Run

variable {κ ω : Type}

/-- What concerns the handling of a key. -/
def Request.handlesKey : Request κ → Bool
  | .dispatch _ | .preventDefault => true
  | _ => false

namespace Control

/-- Neither changes of the scheduler nor requests to the registry matter to the relation. -/
structure Indifferent (R : World κ ω → World κ ω → Prop) : Prop extends Lasting R where
  frames : ∀ w s, R w { w with frames := s }
  keys : ∀ w r, R w { w with keys := w.keys.after r }

variable {R : World κ ω → World κ ω → Prop} {call : Caller κ ω} {w w₁ : World κ ω}

section Operations

variable (hR : Indifferent R)
  (hcall : ∀ k signal w, signal.isPress = false → Ends (call k signal) w fun _ w' => R w w')

include hR

theorem Indifferent.setFrames (h : R w w₁) (s : FrameScheduler κ) :
    R w { w₁ with frames := s } := hR.trans h (hR.frames w₁ s)

include hcall

theorem Indifferent.ends_call (h : R w w₁) (k : κ) {signal : Signal}
    (hsignal : signal.isPress = false) : Ends (call k signal) w₁ fun _ w' => R w w' :=
  (hcall k signal w₁ hsignal).mono fun _ _ h' => hR.trans h h'

theorem Indifferent.ends_refreshClock (h : R w w₁) :
    Ends (refreshClock call) w₁ fun _ w' => R w w' := by
  refine ends_get_bind (Ends.bind (ends_modify ?_))
  split
  · exact hR.ends_call hcall (hR.setFrames h _) _ rfl
  · exact ends_pure (hR.setFrames h _)

/-- A step of the scheduler that the clock is looked at after. -/
theorem Indifferent.ends_stirred {β : Type} (h : R w w₁) (s : FrameScheduler κ) (b : β) :
    Ends (do Control.setFrames s; refreshClock call; return b) w₁ fun _ w' => R w w' := by
  refine Ends.bind (ends_modify (Ends.bind ?_))
  exact (hR.ends_refreshClock hcall (hR.setFrames h s)).mono fun _ _ h' => ends_pure h'

theorem Indifferent.ends_unregister (id : ObserverId) (h : R w w₁) :
    Ends (unregister call id) w₁ fun _ w' => R w w' := by
  refine ends_get_bind (Ends.bind (ends_modify ?_))
  split
  · refine Ends.bind ?_
    exact (hR.ends_refreshClock hcall (hR.setFrames h _)).mono fun _ _ h' => ends_pure h'
  · exact ends_pure (hR.setFrames h _)

theorem Indifferent.ends_setPaused (id : ObserverId) (paused : Bool) (h : R w w₁) :
    Ends (setPaused call id paused) w₁ fun _ w' => R w w' := by
  have finish : ∀ w₂, R w w₂ → Ends (do refreshClock call; return true) w₂ fun _ w' => R w w' := by
    intro w₂ h₂
    exact Ends.bind ((hR.ends_refreshClock hcall h₂).mono fun _ _ h' => ends_pure h')
  refine ends_get_bind ?_
  dsimp only
  cases w₁.frames.observers[id]? with
  | none => exact ends_pure h
  | some o =>
    dsimp only
    split
    · exact ends_pure h
    · refine Ends.bind (ends_modify ?_)
      split
      · exact Ends.bind ((hR.ends_call hcall (hR.setFrames h _) _ rfl).mono fun _ => finish)
      · exact finish _ (hR.setFrames h _)

theorem Indifferent.ends_deliver (tick : FrameTick) (ids : List ObserverId) :
    ∀ w₁, R w w₁ → Ends (deliver call tick ids) w₁ fun _ w' => R w w' := by
  induction ids with
  | nil =>
    intro w₁ h
    exact ends_pure h
  | cons id ids ih =>
    intro w₁ h
    refine ends_get_bind ?_
    cases w₁.frames.takeCallback? id with
    | none => exact Ends.bind (ends_pure (ih w₁ h))
    | some taken =>
      refine Ends.bind (ends_modify (Ends.bind ?_))
      refine (hR.ends_call hcall (hR.setFrames h _) _ rfl).mono fun _ w₂ h₂ => ?_
      exact ends_get_bind (Ends.bind (ends_modify (ih _ (hR.setFrames h₂ _))))

theorem Indifferent.ends_tick (now : Timestamp) (h : R w w₁) :
    Ends (tick call now) w₁ fun _ w' => R w w' := by
  refine ends_get_bind ?_
  cases w₁.frames.pulse now with
  | ignored => exact ends_pure h
  | overflow => exact ends_throw _
  | accepted tick frames =>
    refine Ends.bind (ends_modify (Ends.bind ?_))
    exact (hR.ends_deliver hcall tick _ _ (hR.setFrames h _)).mono fun _ _ h' => ends_pure h'

theorem Indifferent.ends_perform {r : Request κ} (hr : r.handlesKey = false) (w : World κ ω) :
    Ends (perform call r) w fun _ w' => R w w' := by
  have hrefl : R w w := hR.refl w
  -- a step of the scheduler or of the registry that nobody is called after
  have stepFrames : ∀ (s : FrameScheduler κ) (a : Answer),
      Ends (do Control.setFrames s; return a) w fun _ w' => R w w' := fun s a =>
    Ends.bind (ends_modify (ends_pure (hR.frames w s)))
  have stepKeys : ∀ (request : Request κ) (a : Answer),
      Ends (do setKeys (w.keys.after request); return a) w fun _ w' => R w w' := fun request a =>
    Ends.bind (ends_modify (ends_pure (hR.keys w request)))
  cases r with
  | register k => exact Ends.map _ (ends_get_bind (hR.ends_stirred hcall hrefl _ _))
  | unregister id => exact Ends.map _ (hR.ends_unregister hcall id hrefl)
  | setPaused id paused => exact Ends.map _ (hR.ends_setPaused hcall id paused hrefl)
  | isPaused id => exact ends_get_bind (ends_pure hrefl)
  | onPause id k => exact ends_get_bind (stepFrames _ _)
  | onClock k => exact Ends.bind (ends_modify (ends_pure (hR.frames w _)))
  | tick now => exact Ends.map _ (hR.ends_tick hcall now hrefl)
  | clearFrames =>
    refine Ends.bind (ends_get_bind (Ends.bind (ends_modify ?_)))
    exact (hR.ends_refreshClock hcall (hR.frames w _)).mono fun _ _ h' => ends_pure h'
  | status => exact ends_get_bind (ends_pure hrefl)
  | bind chord k => exact ends_get_bind (stepKeys (.bind chord k) _)
  | unbind chord => exact ends_get_bind (stepKeys (.unbind chord) _)
  | isBound chord => exact ends_get_bind (ends_pure hrefl)
  | observeKeys k => exact ends_get_bind (stepKeys (.observeKeys k) _)
  | ignoreKeys id => exact ends_get_bind (stepKeys (.ignoreKeys id) _)
  | dispatch event => cases hr
  | clearKeys => exact ends_get_bind (stepKeys .clearKeys _)
  | preventDefault => cases hr

end Operations

end Control

end ViewHost
