import ViewHost.Proofs.Control.Log
import ViewHost.Proofs.Control.Watch

/-!
# The course of a run

What can come to pass in a run, as far as the scheduler goes, is listed here once and for
all: which steps a request takes, which callbacks are called after each of them, and that a
callback may have any requests served before it returns. Of the callbacks nothing is known
but when they are called, and of the registry nothing at all.

Every run that is watched and ends takes such a course. So what holds of all courses, by
induction on them, holds of all runs, however deep callbacks are nested.
-/

namespace ViewHost

open Run

variable {κ ω : Type}

/-- The tick that comes back, if one does. -/
def Answer.tick? : Answer → Option FrameTick
  | .ticked tick => tick
  | _ => none

/-- A key event is being handled. -/
def Signal.isPress : Signal → Bool
  | .shortcut .. | .key .. => true
  | _ => false

namespace FrameScheduler

/-- A scheduler in a world of its own. -/
def alone (s : FrameScheduler κ) : World κ Unit := ⟨s, .empty, false, ()⟩

/-- Whether a request is for something that can be done. -/
def heeds (s : FrameScheduler κ) (r : Request κ) : Bool := s.alone.heeds r

/-- The scheduler after the step that a request takes at once. -/
def after (s : FrameScheduler κ) (r : Request κ) : FrameScheduler κ := (s.alone.commit r).frames

/-- The listener of an observer. -/
def onPause? (s : FrameScheduler κ) (id : ObserverId) : Option κ :=
  s.observers[id]?.bind (·.onPause)

end FrameScheduler

/-- The parts that a run is made of. -/
inductive Span (κ : Type) where
  /-- Requests, one after the other. -/
  | free
  | call (k : κ) (signal : Signal)
  /-- What lies between a request and its answer. -/
  | request (r : Request κ) (a : Answer)
  /-- The clock is started or stopped if it has to be. -/
  | clock
  /-- Some observers have their turns in a tick. -/
  | turns (tick : FrameTick) (ids : List ObserverId)
  /-- Actions and key observers are called. -/
  | presses

/-- What can be seen in a part of a run, and what becomes of the scheduler. -/
inductive Course : Span κ → FrameScheduler κ → List (Sighting κ) → FrameScheduler κ → Prop where
  | rest (s : FrameScheduler κ) : Course .free s [] s
  | exchange {s s₁ s' : FrameScheduler κ} {es es' : List (Sighting κ)} {r : Request κ} {a : Answer}
      (hrequest : Course (.request r a) s es s₁) (hrest : Course .free s₁ es' s') :
      Course .free s (⟨.asked r, s⟩ :: es ++ ⟨.answered r a, s₁⟩ :: es') s'
  | call {s s' : FrameScheduler κ} {es : List (Sighting κ)} {k : κ} {signal : Signal}
      (hserve : Course .free s es s') :
      Course (.call k signal) s (⟨.called k signal, s⟩ :: es ++ [⟨.returned k, s'⟩]) s'
  | ignored {s : FrameScheduler κ} {r : Request κ} {a : Answer} (hheeds : s.heeds r = false)
      (ha : a.tick? = none) : Course (.request r a) s [] s
  | done {s : FrameScheduler κ} {r : Request κ} {a : Answer} (hheeds : s.heeds r = true)
      (hr : r.stirs = false) (htick : ∀ now, r ≠ .tick now) (ha : a.tick? = none) :
      Course (.request r a) s [] (s.after r)
  | dispatched {s s' : FrameScheduler κ} {es : List (Sighting κ)} {event : KeyEvent} {a : Answer}
      (ha : a.tick? = none) (hpresses : Course .presses s es s') :
      Course (.request (.dispatch event) a) s es s'
  | ticked {s s₁ s' : FrameScheduler κ} {es : List (Sighting κ)} {now : Timestamp}
      {tick : FrameTick} (hp : s.pulse now = .accepted tick s₁)
      (hturns : Course (.turns tick s₁.due) s₁ es s') :
      Course (.request (.tick now) (.ticked (some tick))) s es s'
  | stirred {s s' : FrameScheduler κ} {es : List (Sighting κ)} {r : Request κ} {a : Answer}
      (hheeds : s.heeds r = true) (hr : r.stirs = true)
      (hquiet : ∀ id paused, r = .setPaused id paused → s.onPause? id = none)
      (ha : a.tick? = none) (hclock : Course .clock (s.after r) es s') :
      Course (.request r a) s es s'
  | paused {s s₁ s' : FrameScheduler κ} {es es' : List (Sighting κ)} {id : ObserverId}
      {paused : Bool} {k : κ} {a : Answer} (hheeds : s.heeds (.setPaused id paused) = true)
      (hk : s.onPause? id = some k)
      (ha : a.tick? = none)
      (hcall : Course (.call k (.pause id paused)) (s.after (.setPaused id paused)) es s₁)
      (hclock : Course .clock s₁ es' s') :
      Course (.request (.setPaused id paused) a) s (es ++ es') s'
  | steady {s : FrameScheduler κ} (hquiet : s.refresh.1 = none ∨ s.refresh.2.onClock = none) :
      Course .clock s [] s.refresh.2
  | switched {s s' : FrameScheduler κ} {es : List (Sighting κ)} {running : Bool} {k : κ}
      (hchange : s.refresh.1 = some running) (hk : s.refresh.2.onClock = some k)
      (hcall : Course (.call k (.clock running)) s.refresh.2 es s') : Course .clock s es s'
  | served (s : FrameScheduler κ) (tick : FrameTick) : Course (.turns tick []) s [] s
  | passed {s s' : FrameScheduler κ} {es : List (Sighting κ)} {tick : FrameTick} {id : ObserverId}
      {ids : List ObserverId} (htake : s.takeCallback? id = none)
      (hrest : Course (.turns tick ids) s es s') : Course (.turns tick (id :: ids)) s es s'
  | turn {s s₁ s₂ s' : FrameScheduler κ} {es es' : List (Sighting κ)} {tick : FrameTick}
      {id : ObserverId} {ids : List ObserverId} {k : κ} (htake : s.takeCallback? id = some (k, s₁))
      (hcall : Course (.call k (.tick id tick)) s₁ es s₂)
      (hrest : Course (.turns tick ids) (s₂.restore id k) es' s') :
      Course (.turns tick (id :: ids)) s (es ++ es') s'
  | silent (s : FrameScheduler κ) : Course .presses s [] s
  | pressed {s s₁ s' : FrameScheduler κ} {es es' : List (Sighting κ)} {k : κ} {signal : Signal}
      (hsignal : signal.isPress = true) (hcall : Course (.call k signal) s es s₁)
      (hrest : Course .presses s₁ es' s') : Course .presses s (es ++ es') s'

namespace World

/-- What has been seen since, and what has become of the scheduler, is the course of a part of
a run. -/
def Goes (span : Span κ) (w w' : World κ (ω × List (Sighting κ))) : Prop :=
  ∃ es, w'.history = w.history ++ es ∧ Course span w.frames es w'.frames

theorem Goes.of_course_nil {span : Span κ} {w w' : World κ (ω × List (Sighting κ))}
    (hhistory : w'.history = w.history) (h : Course span w.frames [] w'.frames) : Goes span w w' :=
  ⟨[], by rw [hhistory, List.append_nil], h⟩

end World

namespace Control

open World

section Operations

variable {call : Caller κ (ω × List (Sighting κ))}
  (hcall : ∀ k signal w, Ends (call k signal) w fun _ w' => Goes (.call k signal) w w')

include hcall

theorem goes_refreshClock (w : World κ (ω × List (Sighting κ))) :
    Ends (refreshClock call) w fun _ w' => Goes .clock w w' := by
  refine ends_get_bind (Ends.bind (ends_modify ?_))
  split
  · next running k hchange hk =>
    refine (hcall k (.clock running) _).mono ?_
    rintro _ w' ⟨es, hhistory, hcourse⟩
    exact ⟨es, hhistory, .switched hchange hk hcourse⟩
  · next hquiet =>
    refine ends_pure (.of_course_nil rfl (.steady ?_))
    cases hchange : w.frames.refresh.1 with
    | none => exact .inl rfl
    | some running =>
      cases hk : w.frames.refresh.2.onClock with
      | none => exact .inr rfl
      | some k => exact (hquiet running k hchange hk).elim

/-- A step that the clock is looked at after. -/
theorem goes_stirred {β : Type} {r : Request κ} (w : World κ (ω × List (Sighting κ)))
    (hheeds : w.frames.heeds r = true) (hr : r.stirs = true)
    (hquiet : ∀ id paused, r = .setPaused id paused → w.frames.onPause? id = none) (b : β) :
    Ends (do setFrames (w.frames.after r); refreshClock call; return b) w
      fun _ w' => ∀ a, a.tick? = none → Goes (.request r a) w w' := by
  refine Ends.bind (ends_modify (Ends.bind ((goes_refreshClock hcall _).mono ?_)))
  rintro _ w' ⟨es, hhistory, hcourse⟩
  exact ends_pure fun a ha => ⟨es, hhistory, .stirred hheeds hr hquiet ha hcourse⟩

theorem goes_unregister (id : ObserverId) (w : World κ (ω × List (Sighting κ))) :
    Ends (unregister call id) w fun _ w' =>
      ∀ a, Goes (.request (.unregister id) (.flag a)) w w' := by
  refine ends_get_bind ?_
  dsimp only
  cases hid : w.frames.observers.contains id with
  | false =>
    have hremove : w.frames.remove id = (false, w.frames) := by simp [FrameScheduler.remove, hid]
    rw [hremove]
    exact Ends.bind (ends_modify (ends_pure fun a => .of_course_nil rfl (.ignored hid rfl)))
  | true =>
    have hremove : w.frames.remove id = (true, w.frames.after (.unregister id)) := by
      simp [FrameScheduler.after, FrameScheduler.alone, World.commit, FrameScheduler.remove, hid]
    rw [hremove]
    have hquiet : ∀ id' paused, Request.unregister (κ := κ) id = .setPaused id' paused →
        w.frames.onPause? id' = none := by
      rintro id' paused ⟨⟩
    exact (goes_stirred hcall (r := .unregister id) w hid rfl hquiet true).mono fun _ _ h a =>
      h (.flag a) rfl

theorem goes_setPaused (id : ObserverId) (paused : Bool) (w : World κ (ω × List (Sighting κ))) :
    Ends (setPaused call id paused) w
      fun _ w' => ∀ a, Goes (.request (.setPaused id paused) (.flag a)) w w' := by
  refine ends_get_bind ?_
  dsimp only
  cases ho : w.frames.observers[id]? with
  | none =>
    refine ends_pure fun a => .of_course_nil rfl (.ignored ?_ rfl)
    simp [FrameScheduler.heeds, FrameScheduler.alone, heeds, FrameScheduler.isPaused?, ho]
  | some o =>
    dsimp only
    split
    · next hsame =>
      refine ends_pure fun a => .of_course_nil rfl (.ignored ?_ rfl)
      cases paused <;>
        simp [FrameScheduler.heeds, FrameScheduler.alone, heeds, FrameScheduler.isPaused?, ho,
          hsame]
    · next hother =>
      have hheeds : w.frames.heeds (.setPaused id paused) = true := by
        cases paused <;>
          simp_all [FrameScheduler.heeds, FrameScheduler.alone, heeds, FrameScheduler.isPaused?]
      have hlistener : w.frames.onPause? id = o.onPause := by simp [FrameScheduler.onPause?, ho]
      cases hk : o.onPause with
      | none =>
        have hquiet : ∀ id' paused', Request.setPaused (κ := κ) id paused = .setPaused id' paused' →
            w.frames.onPause? id' = none := by
          rintro id' paused' ⟨⟩
          rw [hlistener, hk]
        exact (goes_stirred hcall w hheeds rfl hquiet true).mono fun _ _ h a => h (.flag a) rfl
      | some k =>
        refine Ends.bind (ends_modify (Ends.bind ((hcall k (.pause id paused) _).mono ?_)))
        rintro _ w₁ ⟨es, hhistory, hpause⟩
        refine Ends.bind ((goes_refreshClock hcall w₁).mono ?_)
        rintro _ w' ⟨es', hhistory', hclock⟩
        refine ends_pure fun a =>
          ⟨es ++ es', ?_, .paused hheeds (hlistener.trans hk) rfl hpause hclock⟩
        rw [hhistory', hhistory, List.append_assoc]
        rfl

theorem goes_deliver (tick : FrameTick) (ids : List ObserverId) :
    ∀ w : World κ (ω × List (Sighting κ)),
      Ends (deliver call tick ids) w fun _ w' => Goes (.turns tick ids) w w' := by
  induction ids with
  | nil =>
    intro w
    exact ends_pure (.of_course_nil rfl (.served _ tick))
  | cons id ids ih =>
    intro w
    refine ends_get_bind ?_
    cases htake : w.frames.takeCallback? id with
    | none =>
      refine Ends.bind (ends_pure ((ih w).mono ?_))
      rintro _ w' ⟨es, hhistory, hrest⟩
      exact ⟨es, hhistory, .passed htake hrest⟩
    | some taken =>
      obtain ⟨k, frames⟩ := taken
      refine Ends.bind (ends_modify (Ends.bind ((hcall k (.tick id tick) _).mono ?_)))
      rintro _ w₁ ⟨es, hhistory, hturn⟩
      refine ends_get_bind (Ends.bind (ends_modify ((ih _).mono ?_)))
      rintro _ w' ⟨es', hhistory', hrest⟩
      refine ⟨es ++ es', ?_, .turn htake hturn hrest⟩
      rw [hhistory', ← List.append_assoc]
      exact congrArg (· ++ es') hhistory

theorem goes_tick (now : Timestamp) (w : World κ (ω × List (Sighting κ))) :
    Ends (tick call now) w fun tick w' => Goes (.request (.tick now) (.ticked tick)) w w' := by
  refine ends_get_bind ?_
  cases hp : w.frames.pulse now with
  | ignored =>
    refine ends_pure (.of_course_nil rfl (.ignored ?_ rfl))
    simp [FrameScheduler.heeds, FrameScheduler.alone, heeds, hp]
  | overflow => exact ends_throw _
  | accepted tick frames =>
    refine Ends.bind (ends_modify (Ends.bind ((goes_deliver hcall tick frames.due _).mono ?_)))
    rintro _ w' ⟨es, hhistory, hturns⟩
    exact ends_pure ⟨es, hhistory, .ticked hp hturns⟩

theorem goes_announce (press : KeyPress) (observers : List (KeyObserverId × κ)) :
    ∀ w : World κ (ω × List (Sighting κ)),
      Ends (announce call press observers) w fun _ w' => Goes .presses w w' := by
  induction observers with
  | nil =>
    intro w
    exact ends_pure (.of_course_nil rfl (.silent _))
  | cons o observers ih =>
    intro w
    refine ends_get_bind (Ends.bind ((hcall o.2 _ w).mono ?_))
    rintro _ w₁ ⟨es, hhistory, hpress⟩
    refine (ih w₁).mono ?_
    rintro _ w' ⟨es', hhistory', hrest⟩
    refine ⟨es ++ es', ?_, .pressed rfl hpress hrest⟩
    rw [hhistory', hhistory, List.append_assoc]

theorem goes_dispatch (event : KeyEvent) (w : World κ (ω × List (Sighting κ))) :
    Ends (dispatch call event) w fun _ w' => Goes .presses w w' := by
  have finish : ∀ w₁ : World κ (ω × List (Sighting κ)), Ends (do
      announce call (KeyPress.ofEvent event) w.keys.observers
      let prevented := (← get).prevented
      modify fun w' => { w' with prevented := w.prevented }
      return (⟨(w.keys.actionFor? (KeyPress.ofEvent event)).isSome, prevented⟩ : KeyDispatch)) w₁
      fun _ w' => Goes .presses w₁ w' := by
    intro w₁
    refine Ends.bind ((goes_announce hcall _ _ w₁).mono ?_)
    rintro _ w₂ ⟨es, hhistory, hpresses⟩
    exact ends_get_bind (Ends.bind (ends_modify (ends_pure ⟨es, hhistory, hpresses⟩)))
  refine ends_get_bind (Ends.bind (ends_modify ?_))
  dsimp only
  split
  · next k hk =>
    refine Ends.bind ((hcall k _ _).mono ?_)
    rintro _ w₁ ⟨es, hhistory, hpress⟩
    refine (finish w₁).mono ?_
    rintro _ w' ⟨es', hhistory', hrest⟩
    refine ⟨es ++ es', ?_, .pressed rfl hpress hrest⟩
    rw [hhistory', hhistory, List.append_assoc]
    rfl
  · exact finish _

/-- Between a request and its answer a run takes a course. -/
theorem goes_perform (r : Request κ) (w : World κ (ω × List (Sighting κ))) :
    Ends (perform call r) w fun a w' => Goes (.request r a) w w' := by
  -- requests that are done with the step they take at once
  have atOnce : ∀ {w' : World κ (ω × List (Sighting κ))} {a : Answer}, w'.history = w.history →
      w'.frames = w.frames.after r → w.frames.heeds r = true → r.stirs = false →
      (∀ now, r ≠ .tick now) → a.tick? = none → Goes (.request r a) w w' :=
    fun hhistory hframes hheeds hr htick ha =>
      .of_course_nil hhistory (hframes ▸ .done hheeds hr htick ha)
  cases r with
  | register k =>
    refine Ends.map _ (ends_get_bind ?_)
    exact (goes_stirred hcall (r := .register k) w rfl rfl nofun _).mono fun id _ h =>
      h (.observer id) rfl
  | unregister id => exact Ends.map _ ((goes_unregister hcall id w).mono fun a _ h => h a)
  | setPaused id paused =>
    exact Ends.map _ ((goes_setPaused hcall id paused w).mono fun a _ h => h a)
  | isPaused id => exact ends_get_bind (ends_pure (atOnce rfl rfl rfl rfl nofun rfl))
  | onPause id k =>
    exact ends_get_bind (Ends.bind (ends_modify (ends_pure (atOnce rfl rfl rfl rfl nofun rfl))))
  | onClock k => exact Ends.bind (ends_modify (ends_pure (atOnce rfl rfl rfl rfl nofun rfl)))
  | tick now => exact Ends.map _ (goes_tick hcall now w)
  | clearFrames =>
    refine Ends.bind (ends_get_bind (Ends.bind (ends_modify ((goes_refreshClock hcall _).mono ?_))))
    rintro _ w' ⟨es, hhistory, hclock⟩
    exact ends_pure ⟨es, hhistory, .stirred rfl rfl nofun rfl hclock⟩
  | status => exact ends_get_bind (ends_pure (atOnce rfl rfl rfl rfl nofun rfl))
  | bind chord k =>
    exact ends_get_bind (Ends.bind (ends_modify (ends_pure (atOnce rfl rfl rfl rfl nofun rfl))))
  | unbind chord =>
    exact ends_get_bind (Ends.bind (ends_modify (ends_pure (atOnce rfl rfl rfl rfl nofun rfl))))
  | isBound chord => exact ends_get_bind (ends_pure (atOnce rfl rfl rfl rfl nofun rfl))
  | observeKeys k =>
    exact ends_get_bind (Ends.bind (ends_modify (ends_pure (atOnce rfl rfl rfl rfl nofun rfl))))
  | ignoreKeys id =>
    exact ends_get_bind (Ends.bind (ends_modify (ends_pure (atOnce rfl rfl rfl rfl nofun rfl))))
  | dispatch event =>
    refine Ends.map _ ((goes_dispatch hcall event w).mono ?_)
    rintro _ w' ⟨es, hhistory, hpresses⟩
    exact ⟨es, hhistory, .dispatched rfl hpresses⟩
  | clearKeys =>
    refine ends_get_bind (Ends.bind (ends_modify (ends_pure ?_)))
    exact atOnce rfl rfl rfl rfl nofun rfl
  | preventDefault => exact Ends.bind (ends_modify (ends_pure (atOnce rfl rfl rfl rfl nofun rfl)))

/-- A request with its answer is all that is seen if nothing else is asked for. -/
theorem goes_exchange (r : Request κ) (w : World κ (ω × List (Sighting κ))) :
    Ends (exchange call r) w fun a w' => ∃ es, w'.history = w.history ++ (⟨.asked r, w.frames⟩ ::
      es ++ [⟨.answered r a, w'.frames⟩]) ∧ Course (.request r a) w.frames es w'.frames := by
  refine Ends.bind (ends_modify (Ends.bind ((goes_perform hcall r _).mono ?_)))
  rintro a w₁ ⟨es, hhistory, hrequest⟩
  refine Ends.bind (ends_modify (ends_pure ⟨es, ?_, hrequest⟩))
  change w₁.history ++ [⟨.answered r a, w₁.frames⟩] = _
  rw [hhistory]
  simp [history]

end Operations

/-- A callback takes a course until it returns, and so do its requests. The induction is on the
budget, which they share. -/
theorem goes_callWatched (b : Behaviour κ ω) (budget : Nat) :
    (∀ k signal w, Ends (callWatched b budget k signal) w
      fun _ w' => Goes (.call k signal) w w') ∧
    ∀ k w, Ends (serveWatched b budget k) w fun _ w' => Goes .free w w' := by
  induction budget with
  | zero =>
    refine ⟨fun k signal w => ?_, fun k w => ?_⟩
    · rw [callWatched]
      exact ends_throw _
    · rw [serveWatched]
      exact ends_throw _
  | succ budget ih =>
    obtain ⟨hcall, hserve⟩ := ih
    refine ⟨fun k signal w => ?_, fun k w => ?_⟩
    · rw [callWatched]
      refine Ends.bind (ends_modify (Ends.bind (ends_modify (Ends.bind ((hserve k _).mono ?_)))))
      rintro _ w₁ ⟨es, hhistory, hcourse⟩
      refine Ends.bind (ends_modify (ends_modify ⟨_, ?_, .call hcourse⟩))
      change w₁.history ++ [⟨.returned k, w₁.frames⟩] = _
      rw [hhistory]
      simp [history]
    · rw [serveWatched]
      refine ends_get_bind ?_
      cases hr : b.request k w.client.1 with
      | none => exact ends_pure (.of_course_nil rfl (.rest _))
      | some asked =>
        obtain ⟨r, client⟩ := asked
        refine Ends.bind (ends_modify (Ends.bind ((goes_exchange hcall r _).mono ?_)))
        rintro a w₁ ⟨es, hhistory, hrequest⟩
        refine Ends.bind (ends_modify ((hserve k _).mono ?_))
        rintro _ w' ⟨es', hhistory', hrest⟩
        refine ⟨_, ?_, .exchange hrequest hrest⟩
        rw [hhistory']
        change w₁.history ++ es' = _
        rw [hhistory]
        simp [history]

end Control

/-- Two parts of a run, one after the other, that callbacks or the outside are in control of. -/
theorem Course.append {s s₁ s' : FrameScheduler κ} {es es' : List (Sighting κ)}
    (h : Course .free s es s₁) (h' : Course .free s₁ es' s') : Course .free s (es ++ es') s' := by
  generalize hspan : Span.free = span at h
  induction h with
  | rest s => exact h'
  | exchange hrequest hrest _ ih =>
    have hcourse := Course.exchange hrequest (ih h' hspan)
    simpa using hcourse
  | _ => cases hspan

/-- All that has been seen is the course of one run. -/
theorem World.Watched.course {b : Behaviour κ ω} {interval : Duration}
    {w : World κ (ω × List (Sighting κ))} (hw : w.Watched b interval) :
    Course .free (.new interval) w.history w.frames := by
  induction hw with
  | start client => exact .rest _
  | run _ budget r a hrun ih =>
    obtain ⟨es, hhistory, hrequest⟩ :=
      Control.goes_exchange (Control.goes_callWatched b budget).1 r _ _ _ hrun
    rw [hhistory]
    exact ih.append (.exchange hrequest (.rest _))
  | meanwhile _ client ih => exact ih

end ViewHost
