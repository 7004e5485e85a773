import Mathlib
import ViewHost.Proofs.Frame.Moments

/-!
# Ticks keep time

Whether a pulse is accepted, and how much time the tick accounts for, depends on when the
last tick was and on whether the clock has stood still since. Both can be read off the
history, whatever callbacks have asked for, and in whichever order. So ticks are at least an
interval apart; a tick accounts for the time since the one before if the clock has run all
the while, and for one interval if it has not, so that time during which the clock stood
still is never accounted for.
-/

namespace ViewHost

variable {κ ω : Type}

/-- The time of the tick that the pulse is accepted as that is asked for. -/
def Sighting.time? (x : Sighting κ) : Option Timestamp := x.accepted?.map (·.timestamp)

open Sighting

theorem Sighting.time?_eq_none {x : Sighting κ} (h : x.accepted? = none) : x.time? = none := by
  rw [time?, h]
  rfl

theorem Sighting.time?_eq_some {x : Sighting κ} {tick : FrameTick} (h : x.accepted? = some tick) :
    x.time? = some tick.timestamp := by
  rw [time?, h]
  rfl

/-- What ticks depend on. -/
structure Timer where
  last : Option Timestamp
  /-- There was no tick yet, or the clock has stood still since the last one. -/
  rested : Bool

namespace Timer

/-- What a moment makes of it. -/
def step (c : Timer) (x : Sighting κ) : Timer :=
  match x.accepted? with
  | some tick => ⟨some tick.timestamp, false⟩
  | none => ⟨c.last, c.rested || !x.frames.running⟩

variable {c : Timer} {x : Sighting κ} {tick : FrameTick}

theorem step_of_accepted (h : x.accepted? = some tick) :
    c.step x = ⟨some tick.timestamp, false⟩ := by
  rw [step, h]

theorem step_of_not_accepted (h : x.accepted? = none) :
    c.step x = ⟨c.last, c.rested || !x.frames.running⟩ := by
  rw [step, h]

/-- Between ticks all that matters is whether the clock stands still. -/
theorem foldl_step_of_not_accepted {es : List (Sighting κ)} (h : ∀ x ∈ es, x.accepted? = none) :
    es.foldl step c = ⟨c.last, c.rested || !es.all (·.frames.running)⟩ := by
  induction es generalizing c with
  | nil => simp
  | cons x es ih =>
    rw [List.forall_mem_cons] at h
    rw [List.foldl_cons, ih h.2, step_of_not_accepted h.1, List.all_cons, Bool.not_and,
      Bool.or_assoc]

/-- The last tick is the last one that was accepted. -/
theorem last_foldl_step (c : Timer) (es : List (Sighting κ)) :
    (es.foldl step c).last = (es.filterMap time?).getLast?.or c.last := by
  induction es generalizing c with
  | nil => rfl
  | cons x es ih =>
    rw [List.foldl_cons, ih]
    cases hx : x.accepted? with
    | none => rw [List.filterMap_cons_none (time?_eq_none hx), step_of_not_accepted hx]
    | some tick =>
      rw [List.filterMap_cons_some (time?_eq_some hx), step_of_accepted hx, List.getLast?_cons]
      cases (es.filterMap time?).getLast? <;> rfl

end Timer

namespace Sighting

variable {x y : Sighting κ} {c : Timer} {interval : Duration} {tick : FrameTick}

/-- The scheduler goes by a timer. -/
structure GoesBy (x : Sighting κ) (interval : Duration) (c : Timer) : Prop where
  interval : x.frames.interval = interval
  lastTick : x.frames.lastTick = c.last
  resumed : x.frames.running = true → x.frames.resumed = c.rested

theorem exists_pulse (h : x.accepted? = some tick) : ∃ s, x.moment = .asked (.tick tick.timestamp) ∧
    x.frames.pulse tick.timestamp = .accepted tick s := by
  rw [accepted?] at h
  split at h
  · next now hnow =>
    split at h
    · next hp =>
      cases h
      obtain rfl := (FrameScheduler.pulse_eq_accepted hp).1
      exact ⟨_, hnow, hp⟩
    · cases h
  · cases h

theorem committed_of_accepted (h : x.accepted? = some tick) : x.committed = { x.frames with
    lastTick := some tick.timestamp, resumed := false, delivered := x.frames.delivered + 1 } := by
  obtain ⟨s, hmoment, hp⟩ := exists_pulse h
  rw [← (FrameScheduler.pulse_eq_accepted hp).2, committed, hmoment]
  simp [FrameScheduler.heeds, FrameScheduler.after, FrameScheduler.alone, World.heeds,
    World.commit, hp]

theorem committed_of_not_accepted (h : x.accepted? = none) :
    x.committed.lastTick = x.frames.lastTick ∧ x.committed.resumed = x.frames.resumed := by
  rcases x.committed_eq with ⟨hsame, _⟩ | ⟨r, hr, hheeds, hafter⟩
  · rw [hsame]
    exact ⟨rfl, rfl⟩
  · rw [hafter]
    apply (x.frames.clock_after r).2.2
    rintro now rfl
    rw [accepted?, hr] at h
    cases hp : x.frames.pulse now <;>
      simp [FrameScheduler.heeds, FrameScheduler.alone, World.heeds, hp] at hheeds h

theorem interval_committed (x : Sighting κ) : x.committed.interval = x.frames.interval := by
  rcases x.committed_eq with ⟨hsame, _⟩ | ⟨r, _, _, hafter⟩
  · rw [hsame]
  · rw [hafter, (x.frames.clock_after r).2.1]

/-- From one moment to the next. -/
theorem GoesBy.next (h : x.GoesBy interval c) (hxy : x.Next y) : y.GoesBy interval (c.step x) := by
  have hinterval : y.frames.interval = interval :=
    (hxy.alike.interval.trans x.interval_committed).trans h.interval
  cases hx : x.accepted? with
  | some tick =>
    have hcommitted := committed_of_accepted hx
    obtain ⟨_, _, hp⟩ := exists_pulse hx
    have hrunning := (FrameScheduler.pulse_accepted hp).1
    rw [Timer.step_of_accepted hx]
    refine ⟨hinterval, by rw [hxy.alike.lastTick, hcommitted], fun hon => ?_⟩
    rcases hxy.clock with ⟨_, hsame, _⟩ | ⟨hother, _⟩
    · rw [hsame, hcommitted]
    · rw [hon, x.running_committed, hrunning] at hother
      cases hother
  | none =>
    obtain ⟨hlast, hresumed⟩ := committed_of_not_accepted hx
    rw [Timer.step_of_not_accepted hx]
    refine ⟨hinterval, (hxy.alike.lastTick.trans hlast).trans h.lastTick, fun hon => ?_⟩
    rcases hxy.clock with ⟨hstill, hsame, _⟩ | ⟨hother, hwoken, _⟩
    · have hx_on : x.frames.running = true := by rw [← x.running_committed, ← hstill, hon]
      rw [hsame, hresumed, h.resumed hx_on, hx_on]
      simp
    · have hx_off : x.frames.running = false := by
        rw [x.running_committed, hon] at hother
        simpa using hother.symm
      rw [hwoken, hon, hx_off]
      simp

/-- Along a history. -/
theorem GoesBy.along {before after : List (Sighting κ)} (h : x.GoesBy interval c)
    (hchain : (x :: (before ++ y :: after)).IsChain Next) :
    y.GoesBy interval ((x :: before).foldl Timer.step c) := by
  induction before generalizing x c with
  | nil => exact h.next (List.isChain_cons_cons.1 hchain).1
  | cons z before ih =>
    have hsplit := List.isChain_cons_cons.1 hchain
    exact ih (h.next hsplit.1) hsplit.2

/-- What a tick that is accepted accounts for. -/
theorem GoesBy.of_accepted (h : x.GoesBy interval c) (hx : x.accepted? = some tick) :
    match c.last with
    | none => tick.delta = interval
    | some last => last.nanos + interval.nanos ≤ tick.timestamp.nanos ∧
        tick.delta = if c.rested then interval else tick.timestamp.monus last := by
  obtain ⟨_, _, hp⟩ := exists_pulse hx
  obtain ⟨hrunning, _, hdelta⟩ := FrameScheduler.pulse_accepted hp
  rwa [h.lastTick, h.interval, h.resumed hrunning] at hdelta

theorem GoesBy.interval_le_delta (h : x.GoesBy interval c) (hx : x.accepted? = some tick) :
    interval.nanos ≤ tick.delta.nanos := by
  have hdelta := h.of_accepted hx
  split at hdelta
  · rw [hdelta]
  · obtain ⟨hdue, hdelta⟩ := hdelta
    rw [hdelta]
    split
    · exact Nat.le_refl _
    · simp only [Duration.monus]
      omega

theorem goesBy_fresh (interval : Duration) :
    (fresh interval : Sighting κ).GoesBy interval ⟨none, true⟩ := ⟨rfl, rfl, nofun⟩

end Sighting

/-- An interval or more. -/
def Spaced (interval : Duration) (t t' : Timestamp) : Prop := t.nanos + interval.nanos ≤ t'.nanos

/-- A moment comes before moments whose ticks are apart, also from the last one before them. -/
theorem spaced_cons {x : Sighting κ} {c : Timer} {interval : Duration} {es : List (Sighting κ)}
    (h : x.GoesBy interval c)
    (htimes : ((c.step x).last.toList ++ es.filterMap time?).Pairwise (Spaced interval)) :
    (c.last.toList ++ (x :: es).filterMap time?).Pairwise (Spaced interval) := by
  cases hx : x.accepted? with
  | none =>
    rw [Timer.step_of_not_accepted hx] at htimes
    rwa [List.filterMap_cons_none (time?_eq_none hx)]
  | some tick =>
    have hdelta := h.of_accepted hx
    rw [Timer.step_of_accepted hx] at htimes
    rw [List.filterMap_cons_some (time?_eq_some hx)]
    cases hlast : c.last with
    | none => exact htimes
    | some last =>
      rw [hlast] at hdelta
      have hdue : Spaced interval last tick.timestamp := hdelta.1
      refine List.pairwise_cons.2 ⟨List.forall_mem_cons.2 ⟨hdue, fun t ht => ?_⟩, htimes⟩
      have hlater := (List.pairwise_cons.1 htimes).1 t ht
      rw [Spaced] at hdue hlater ⊢
      omega

/-- Ticks are at least an interval apart, also from the last one before them. -/
theorem times_spaced {x : Sighting κ} {c : Timer} {interval : Duration} {es : List (Sighting κ)}
    (h : x.GoesBy interval c) (hchain : (x :: es).IsChain Next) :
    (c.last.toList ++ (x :: es).filterMap time?).Pairwise (Spaced interval) := by
  induction es generalizing x c with
  | nil => exact spaced_cons h (by cases (c.step x).last <;> simp)
  | cons y es ih =>
    obtain ⟨hxy, hrest⟩ := List.isChain_cons_cons.1 hchain
    exact spaced_cons h (ih (h.next hxy) hrest)

/-! ## Pulses that are not accepted -/

namespace FrameScheduler

variable {s : FrameScheduler κ} {now last : Timestamp}

/-- The number of nanoseconds that lengths of time stay below. -/
def rangeNanos : Nat := (1 <<< 64) * 1000000000

theorem pulse_of_suspended (h : s.running = false) : s.pulse now = .ignored := by
  rw [pulse, h]
  rfl

theorem pulse_of_early (hlast : s.lastTick = some last)
    (hearly : now.nanos < last.nanos + s.interval.nanos)
    (hrange : last.nanos + s.interval.nanos < rangeNanos) : s.pulse now = .ignored := by
  have hadd : last.add? s.interval = some ⟨last.nanos + s.interval.nanos, hrange⟩ := dif_pos hrange
  rw [pulse, hlast]
  simp only [hadd]
  rw [if_pos (show now < ⟨last.nanos + s.interval.nanos, hrange⟩ from hearly), ite_self]

theorem pulse_of_overflow (hrunning : s.running = true) (hlast : s.lastTick = some last)
    (hrange : rangeNanos ≤ last.nanos + s.interval.nanos) : s.pulse now = .overflow := by
  have hadd : last.add? s.interval = none := dif_neg (Nat.not_lt_of_le hrange)
  rw [pulse, hrunning, hlast]
  simp only [hadd]
  rfl

end FrameScheduler

namespace Control

variable {ψ : Type} {call : Caller κ ψ} {w w' : World κ ψ} {now : Timestamp} {a : Answer}

theorem perform_tick_of_ignored (h : w.frames.pulse now = .ignored) :
    perform call (.tick now) w = .ok (.ticked none) w := by
  simp [perform, tick, Functor.map, EStateM.map, bind, EStateM.bind, get, getThe, MonadStateOf.get,
    EStateM.get, h, pure, EStateM.pure]

theorem perform_tick_of_overflow (h : w.frames.pulse now = .overflow) :
    perform call (.tick now) w = .error .overflow w := by
  simp [perform, tick, Functor.map, EStateM.map, bind, EStateM.bind, get, getThe, MonadStateOf.get,
    EStateM.get, h, throw, throwThe, MonadExceptOf.throw, EStateM.throw]

/-- A pulse is answered by the tick that it is accepted as. -/
theorem perform_tick_answer (hrun : perform call (.tick now) w = .ok a w') :
    a = .ticked (accepted? ⟨.asked (.tick now), w.frames⟩) := by
  cases hp : w.frames.pulse now with
  | ignored =>
    rw [perform_tick_of_ignored hp] at hrun
    cases hrun
    simp [accepted?, hp]
  | overflow =>
    rw [perform_tick_of_overflow hp] at hrun
    cases hrun
  | accepted tick frames =>
    rw [accepted?_eq_some hp]
    have hanswer : Run.Ends (perform call (.tick now)) w fun a _ => a = .ticked (some tick) := by
      refine Run.Ends.map _ (Run.ends_get_bind ?_)
      rw [hp]
      refine Run.Ends.bind (Run.ends_modify (Run.Ends.bind ?_))
      exact fun _ _ _ => Run.ends_pure rfl
    exact hanswer _ _ hrun

end Control

namespace World

variable {b : Behaviour κ ω} {interval : Duration} {w : World κ (ω × List (Sighting κ))}

theorem Watched.goesBy (hw : w.Watched b interval) {before after : List (Sighting κ)}
    {x : Sighting κ} (h : w.history = before ++ x :: after) :
    x.GoesBy interval (before.foldl Timer.step ⟨none, true⟩) := by
  have hchain := hw.links.1
  rw [h] at hchain
  exact (goesBy_fresh interval).along hchain

/-- Of two ticks in a row the second is at least an interval after the first. It accounts for
the time since then if the clock has run all the while, and for one interval if not; and the
first tick of all accounts for one interval. So no tick ever accounts for less. A pulse is
answered by the tick that it is accepted as, which is what observers are shown; and it
changes nothing if the clock stands still or if it comes too soon after the last tick. If the
time at which the next tick is due is out of range, the run stops short, and nothing has
changed either. -/
theorem Watched.ticks_keep_time (hw : w.Watched b interval) :
    (∀ before m between m' after t t', w.history = before ++ m :: (between ++ m' :: after) →
      m.accepted? = some t → (∀ x ∈ between, x.accepted? = none) → m'.accepted? = some t' →
      t.timestamp.nanos + interval.nanos ≤ t'.timestamp.nanos ∧
      t'.delta.nanos = if between.all (·.frames.running)
        then t'.timestamp.nanos - t.timestamp.nanos else interval.nanos) ∧
    (∀ before m after t, w.history = before ++ m :: after → (∀ x ∈ before, x.accepted? = none) →
      m.accepted? = some t → t.delta = interval) ∧
    (∀ m ∈ w.history, ∀ t, m.accepted? = some t →
      interval.nanos ≤ t.delta.nanos ∧ m.moment = .asked (.tick t.timestamp)) ∧
    (∀ before x after, w.history = before ++ x :: after →
      x.frames.interval = interval ∧ x.frames.lastTick = (before.filterMap time?).getLast?) ∧
    (∀ before x y after now, w.history = before ++ x :: y :: after →
      x.moment = .asked (.tick now) → y.shown? = x.accepted?) ∧
    ∀ (ψ : Type) (call : Caller κ ψ) (v : World κ ψ) (now : Timestamp),
      (∀ a v', Control.perform call (.tick now) v = .ok a v' →
        a = .ticked (accepted? ⟨.asked (.tick now), v.frames⟩)) ∧
      (v.frames.running = false → Control.perform call (.tick now) v = .ok (.ticked none) v) ∧
      ∀ last, v.frames.lastTick = some last →
        (now.nanos < last.nanos + v.frames.interval.nanos →
          last.nanos + v.frames.interval.nanos < FrameScheduler.rangeNanos →
          Control.perform call (.tick now) v = .ok (.ticked none) v) ∧
        (v.frames.running = true →
          FrameScheduler.rangeNanos ≤ last.nanos + v.frames.interval.nanos →
          Control.perform call (.tick now) v = .error .overflow v) := by
  refine ⟨?_, ?_, ?_, ?_, ?_, ?_⟩
  · intro before m between m' after t t' h hm hbetween hm'
    have hsplit : w.history = (before ++ m :: between) ++ m' :: after := by
      rw [h, List.append_assoc]
      rfl
    have hgoes := hw.goesBy hsplit
    rw [List.foldl_append, List.foldl_cons, Timer.step_of_accepted hm,
      Timer.foldl_step_of_not_accepted hbetween] at hgoes
    obtain ⟨hdue, hdelta⟩ := hgoes.of_accepted hm'
    refine ⟨hdue, ?_⟩
    rw [hdelta]
    cases between.all (·.frames.running) <;> rfl
  · intro before m after t h hbefore hm
    have hgoes := hw.goesBy h
    rw [Timer.foldl_step_of_not_accepted hbefore] at hgoes
    exact hgoes.of_accepted hm
  · intro m hmem t hm
    obtain ⟨before, after, h⟩ := List.append_of_mem hmem
    obtain ⟨_, hmoment, _⟩ := exists_pulse hm
    exact ⟨(hw.goesBy h).interval_le_delta hm, hmoment⟩
  · intro before x after h
    have hgoes := hw.goesBy h
    refine ⟨hgoes.interval, ?_⟩
    rw [hgoes.lastTick, Timer.last_foldl_step, Option.or_none]
  · intro before x y after now h hx
    have hchain := hw.links.1
    rw [h, ← List.cons_append] at hchain
    exact (List.isChain_cons_cons.1 hchain.right_of_append).1.shown now hx
  · intro ψ call v now
    refine ⟨fun a v' => Control.perform_tick_answer, fun hsuspended => ?_, fun last hlast => ?_⟩
    · exact Control.perform_tick_of_ignored (FrameScheduler.pulse_of_suspended hsuspended)
    · refine ⟨fun hearly hrange => ?_, fun hrunning hrange => ?_⟩
      · exact Control.perform_tick_of_ignored (FrameScheduler.pulse_of_early hlast hearly hrange)
      · exact Control.perform_tick_of_overflow
          (FrameScheduler.pulse_of_overflow hrunning hlast hrange)

/-- Callbacks that ask for nothing. -/
def idle : Behaviour Nat Unit where
  enter _ _ _ := ()
  request _ _ := none
  answer _ _ _ := ()
  leave _ _ := ()

/-- An observer that is paused for a while between its first two ticks. -/
def napped : World Nat (Unit × List (Sighting Nat)) :=
  Run.final (Control.runAll idle 2 [.register 1, .tick (.ofMillis 10), .setPaused ⟨1⟩ true,
    .setPaused ⟨1⟩ false, .tick (.ofMillis 25)]) (.new (.ofMillis 10) ((), []))

theorem watched_napped : napped.Watched idle (.ofMillis 10) :=
  (Watched.start ()).runAll (by cbv)

/-- The second tick comes fifteen milliseconds after the first and accounts for ten. -/
theorem napped_keeps_time : ∃ before m between m' after t t',
    napped.history = before ++ m :: (between ++ m' :: after) ∧
    m.accepted? = some t ∧ m'.accepted? = some t' ∧
    t.timestamp.nanos + 15000000 = t'.timestamp.nanos ∧ t'.delta.nanos = 10000000 := by
  have hlength : napped.history.length = 14 := by cbv
  have hsplit : napped.history = napped.history.take 2 ++ napped.history[2] ::
      ((napped.history.drop 3).take 7 ++ napped.history[10] :: napped.history.drop 11) := by
    rw [List.getElem_cons_drop]
    have h : napped.history.drop 10 = (napped.history.drop 3).drop 7 := by rw [List.drop_drop]
    rw [h, List.take_append_drop, List.getElem_cons_drop, List.take_append_drop]
  have hfirst : (napped.history[2]).accepted? = some ⟨.ofMillis 10, .ofMillis 10⟩ := by cbv
  have hsecond : (napped.history[10]).accepted? = some ⟨.ofMillis 25, .ofMillis 10⟩ := by cbv
  have hnone : ((napped.history.drop 3).take 7).all (·.accepted?.isNone) = true := by cbv
  have hrested : ((napped.history.drop 3).take 7).all (·.frames.running) = false := by cbv
  have hbetween : ∀ x ∈ (napped.history.drop 3).take 7, x.accepted? = none := by
    simpa using hnone
  obtain ⟨_, hdelta⟩ :=
    watched_napped.ticks_keep_time.1 _ _ _ _ _ _ _ hsplit hfirst hbetween hsecond
  rw [hrested] at hdelta
  exact ⟨_, _, _, _, _, _, _, hsplit, hfirst, hsecond, rfl, hdelta⟩

end World

end ViewHost
