import Mathlib.Data.List.Chain
import ViewHost.Proofs.Frame.Clock
import ViewHost.Proofs.Frame.Sequel

/-!
# From one moment to the next

Between two moments little can come to pass. The scheduler takes the step that has been
asked for, if that is what the first moment is about; the clock may be looked at once; and
the callback of an observer goes away or is put back, which matters to its turns only. The
pause listener is called if there is something to tell it, and the clock listener if the
clock is started or stopped, and neither of them otherwise.

So a history is a chain of moments, each of which follows from the one before, and it begins
where nothing has happened yet.
-/

namespace ViewHost

variable {κ ω : Type}

namespace Sighting

variable {x y : Sighting κ} {s s' : FrameScheduler κ} {tick : Option FrameTick}

/-- The scheduler after the step that is asked for, if one is. -/
def committed (x : Sighting κ) : FrameScheduler κ :=
  match x.moment with
  | .asked r => if x.frames.heeds r then x.frames.after r else x.frames
  | _ => x.frames

theorem committed_eq (x : Sighting κ) :
    (x.committed = x.frames ∧ ∀ r, x.moment = .asked r → x.frames.heeds r = false) ∨
    ∃ r, x.moment = .asked r ∧ x.frames.heeds r = true ∧ x.committed = x.frames.after r := by
  rw [committed]
  split
  · next r hr =>
    split
    · next hheeds => exact .inr ⟨r, hr, hheeds, rfl⟩
    · next hignored =>
      refine .inl ⟨rfl, fun r' hr' => ?_⟩
      rw [hr] at hr'
      cases hr'
      simpa using hignored
  · next hother => exact .inl ⟨rfl, fun r hr => (hother r hr).elim⟩

theorem running_committed (x : Sighting κ) : x.committed.running = x.frames.running := by
  rcases x.committed_eq with ⟨hsame, _⟩ | ⟨r, _, _, hafter⟩
  · rw [hsame]
  · rw [hafter, (x.frames.clock_after r).1]

/-- The tick that the pulse is accepted as that is asked for. -/
def accepted? (x : Sighting κ) : Option FrameTick :=
  match x.moment with
  | .asked (.tick now) =>
    match x.frames.pulse now with
    | .accepted tick _ => some tick
    | _ => none
  | _ => none

/-- The tick that an observer is called with, or that a request comes to. -/
def shown? (x : Sighting κ) : Option FrameTick :=
  match x.moment with
  | .called _ (.tick _ tick) => some tick
  | .answered _ a => a.tick?
  | _ => none

/-- The call of a clock listener. -/
def clockCall? (x : Sighting κ) : Option (κ × Bool) :=
  match x.moment with
  | .called k (.clock running) => some (k, running)
  | _ => none

/-- The call of a pause listener. -/
def pauseCall? (x : Sighting κ) : Option (κ × ObserverId × Bool) :=
  match x.moment with
  | .called k (.pause id paused) => some (k, id, paused)
  | _ => none

/-- The call of a pause listener that is due for what is asked for. -/
def pauseDue? (x : Sighting κ) : Option (κ × ObserverId × Bool) :=
  match x.moment with
  | .asked (.setPaused id paused) =>
    if x.frames.heeds (.setPaused id paused) then (x.frames.onPause? id).map (·, id, paused)
    else none
  | _ => none

/-- The moment `y` may come next after `x`. -/
structure Next (x y : Sighting κ) : Prop where
  alike : x.committed.Alike y.frames
  clock : (y.frames.running = x.committed.running ∧ y.frames.resumed = x.committed.resumed ∧
      y.clockCall? = none) ∨
    (y.frames.running = !x.committed.running ∧
      y.frames.resumed = (y.frames.running || x.committed.resumed) ∧ y.frames.Synced ∧
      y.clockCall? = y.frames.onClock.map (·, y.frames.running))
  pause : y.pauseCall? = x.pauseDue?
  /-- What comes of a pulse is shown at once. -/
  shown : ∀ now, x.moment = .asked (.tick now) → y.shown? = x.accepted?

/-- Since the moment `x` the scheduler has come to `s`, and nobody has seen it. The clock has
not been looked at, and there is no pause listener to be told of it. -/
structure Since (x : Sighting κ) (tick : Option FrameTick) (s : FrameScheduler κ) : Prop where
  alike : x.committed.Alike s
  running : s.running = x.committed.running
  resumed : s.resumed = x.committed.resumed
  pause : x.pauseDue? = none
  shown : ∀ now, x.moment = .asked (.tick now) → x.accepted? = tick

/-- The clock may have been looked at, but there is no clock listener to be told of it. -/
def Unseen (x : Sighting κ) (tick : Option FrameTick) (s' : FrameScheduler κ) : Prop :=
  ∃ s, x.Since tick s ∧ (s' = s ∨ s' = s.refresh.2 ∧ s'.onClock = none)

theorem Since.unseen (h : x.Since tick s) : x.Unseen tick s := ⟨s, h, .inl rfl⟩

theorem Since.congr (h : x.Since tick s) (halike : s.Alike s') (hrunning : s'.running = s.running)
    (hresumed : s'.resumed = s.resumed) : x.Since tick s' where
  alike := h.alike.trans halike
  running := hrunning.trans h.running
  resumed := hresumed.trans h.resumed
  pause := h.pause
  shown := h.shown

theorem Since.modify (h : x.Since tick s) (id : ObserverId) (f : FrameObserver κ → Option κ) :
    x.Since tick (s.modify id fun o => { o with callback := f o }) :=
  h.congr (s.alike_modify id f) (s.running_modify id _) (s.resumed_modify id _)

/-- Where nothing is asked for, nothing has come to pass. -/
theorem since_of_not_asked (hx : ∀ r, x.moment ≠ .asked r) : x.Since tick x.frames := by
  have hcommitted : x.committed = x.frames := by
    rw [committed]
    split
    · next r hr => exact (hx r hr).elim
    · rfl
  have hpause : x.pauseDue? = none := by
    rw [pauseDue?]
    split
    · next hr => exact (hx _ hr).elim
    · rfl
  exact ⟨hcommitted ▸ .refl _, by rw [hcommitted], by rw [hcommitted], hpause,
    fun now hnow => (hx _ hnow).elim⟩

theorem since_returned (k : κ) (s : FrameScheduler κ) (tick : Option FrameTick) :
    Since ⟨.returned k, s⟩ tick s := since_of_not_asked nofun

/-- A request that nothing comes of, or that takes a step of which no pause listener is told. -/
theorem since_asked {r : Request κ} (htick : ∀ now, r = .tick now → accepted? ⟨.asked r, s⟩ = tick)
    (hpause : pauseDue? ⟨.asked r, s⟩ = none) :
    Since ⟨.asked r, s⟩ tick (if s.heeds r then s.after r else s) := by
  refine ⟨.refl _, rfl, rfl, hpause, ?_⟩
  rintro now hnow
  cases hnow
  exact htick now rfl

theorem pauseDue?_eq_none (h : ∀ id paused, x.moment = .asked (.setPaused id paused) →
    x.frames.heeds (.setPaused id paused) = false ∨ x.frames.onPause? id = none) :
    x.pauseDue? = none := by
  rw [pauseDue?]
  split
  · next id paused hr =>
    rcases h id paused hr with hignored | hquiet
    · rw [hignored]
      rfl
    · rw [hquiet, Option.map_none, ite_self]
  · rfl

theorem accepted?_eq_some {now : Timestamp} {t : FrameTick} (hp : s.pulse now = .accepted t s') :
    accepted? ⟨.asked (.tick now), s⟩ = some t := by
  rw [accepted?]
  dsimp only
  rw [hp]

theorem accepted?_eq_none {now : Timestamp} (h : s.heeds (.tick now) = false) :
    accepted? ⟨.asked (.tick now), s⟩ = none := by
  rw [accepted?]
  dsimp only
  split
  · next t s' hp => simp [FrameScheduler.heeds, FrameScheduler.alone, World.heeds, hp] at h
  · rfl

theorem Unseen.next (h : x.Unseen tick s) (m : Moment κ) (hclock : clockCall? ⟨m, s⟩ = none)
    (hpause : pauseCall? ⟨m, s⟩ = none) (hshown : shown? ⟨m, s⟩ = tick) : x.Next ⟨m, s⟩ := by
  obtain ⟨s₀, hsince, hs⟩ := h
  have hshow : ∀ now, x.moment = .asked (.tick now) → shown? ⟨m, s⟩ = x.accepted? :=
    fun now hnow => hshown.trans (hsince.shown now hnow).symm
  rcases hs with rfl | ⟨rfl, hquiet⟩
  · exact ⟨hsince.alike, .inl ⟨hsince.running, hsince.resumed, hclock⟩,
      hpause.trans hsince.pause.symm, hshow⟩
  · have halike := hsince.alike.trans s₀.alike_refresh
    refine ⟨halike, ?_, hpause.trans hsince.pause.symm, hshow⟩
    cases hchange : s₀.refresh.1 with
    | none =>
      rw [FrameScheduler.refresh_of_eq_none hchange]
      refine .inl ⟨hsince.running, hsince.resumed, ?_⟩
      rw [← hclock, FrameScheduler.refresh_of_eq_none hchange]
    | some running =>
      obtain ⟨hrunning, hother, hresumed⟩ := FrameScheduler.refresh_of_eq_some hchange
      refine .inr ⟨?_, ?_, s₀.synced_refresh, ?_⟩
      · rw [hrunning, hother, hsince.running]
      · rw [hresumed, hrunning, hsince.resumed]
      · rw [hquiet]
        exact hclock

/-- The clock listener is told that the clock is started or stopped. -/
theorem Since.next_clock (h : x.Since none s) {running : Bool} {k : κ}
    (hchange : s.refresh.1 = some running) (hk : s.refresh.2.onClock = some k) :
    x.Next ⟨.called k (.clock running), s.refresh.2⟩ := by
  obtain ⟨hrunning, hother, hresumed⟩ := FrameScheduler.refresh_of_eq_some hchange
  refine ⟨h.alike.trans s.alike_refresh, .inr ⟨?_, ?_, s.synced_refresh, ?_⟩, ?_, ?_⟩
  · rw [hrunning, hother, h.running]
  · rw [hresumed, hrunning, h.resumed]
  · rw [hk, hrunning]
    rfl
  · exact h.pause.symm
  · exact fun now hnow => (h.shown now hnow).symm

/-- The pause listener is told that the observer is paused or wakes up. -/
theorem next_pause {id : ObserverId} {paused : Bool} {k : κ}
    (hheeds : s.heeds (.setPaused id paused) = true) (hk : s.onPause? id = some k) :
    Next ⟨.asked (.setPaused id paused), s⟩
      ⟨.called k (.pause id paused), s.after (.setPaused id paused)⟩ := by
  have hcommitted : committed ⟨.asked (.setPaused id paused), s⟩ =
      s.after (.setPaused id paused) := if_pos hheeds
  refine ⟨hcommitted ▸ .refl _, .inl ⟨by rw [hcommitted], by rw [hcommitted], rfl⟩, ?_, nofun⟩
  simp [pauseCall?, pauseDue?, hheeds, hk]

end Sighting

/-! ## Histories -/

open Sighting

/-- After the moment `x` come the moments `es`, and the last of all leaves the scheduler as `P`
says. -/
def Links (x : Sighting κ) (es : List (Sighting κ)) (P : Sighting κ → Prop) : Prop :=
  (x :: es).IsChain Next ∧ ∃ y, (x :: es).getLast? = some y ∧ P y

namespace Links

variable {x y : Sighting κ} {es es' : List (Sighting κ)} {P Q : Sighting κ → Prop}

theorem nil (h : P x) : Links x [] P := ⟨.singleton x, x, rfl, h⟩

theorem mono (h : Links x es P) (himp : ∀ y, P y → Q y) : Links x es Q := by
  obtain ⟨hchain, y, hlast, hy⟩ := h
  exact ⟨hchain, y, hlast, himp y hy⟩

theorem cons (hxy : x.Next y) (h : Links y es P) : Links x (y :: es) P := by
  obtain ⟨hchain, z, hlast, hz⟩ := h
  exact ⟨.cons_cons hxy hchain, z, by rw [List.getLast?_cons_cons, hlast], hz⟩

theorem append (h : Links x es P) (h' : ∀ y, P y → Links y es' Q) : Links x (es ++ es') Q := by
  induction es generalizing x with
  | nil =>
    obtain ⟨-, y, hlast, hy⟩ := h
    cases hlast
    exact h' x hy
  | cons z es ih =>
    obtain ⟨hchain, y, hlast, hy⟩ := h
    rw [List.isChain_cons_cons] at hchain
    exact .cons hchain.1 (ih ⟨hchain.2, y, by rwa [List.getLast?_cons_cons] at hlast, hy⟩)

end Links

/-- What a part of a run links a moment to. -/
def Span.Linked (span : Span κ) (s : FrameScheduler κ) (es : List (Sighting κ))
    (s' : FrameScheduler κ) : Prop :=
  match span with
  | .free | .presses => ∀ x : Sighting κ, x.Since none s → Links x es (·.Since none s')
  | .call k signal => ∀ x : Sighting κ, x.Next ⟨.called k signal, s⟩ →
    Links x es (· = ⟨.returned k, s'⟩)
  | .request r a => Links ⟨.asked r, s⟩ (es ++ [⟨.answered r a, s'⟩]) (· = ⟨.answered r a, s'⟩)
  | .clock => ∀ x : Sighting κ, x.Since none s → Links x es (·.Unseen none s')
  | .turns tick _ => ∀ x : Sighting κ, x.Since (some tick) s → Links x es (·.Since (some tick) s')

/-- Every course is a chain of moments. -/
theorem Course.linked {span : Span κ} {s s' : FrameScheduler κ} {es : List (Sighting κ)}
    (h : Course span s es s') : span.Linked s es s' := by
  -- how a request ends for which no tick is delivered
  have answered : ∀ {r : Request κ} {a : Answer} {s s' : FrameScheduler κ} {es : List (Sighting κ)},
      a.tick? = none → Links ⟨.asked r, s⟩ es (·.Unseen none s') →
      Span.Linked (.request r a) s es s' :=
    fun ha hlinks => hlinks.append fun y hy => .cons (hy.next _ rfl rfl ha) (.nil rfl)
  induction h with
  | rest s => exact fun x hx => .nil hx
  | @exchange s s₁ s' es es' r a _ _ ihrequest ihrest =>
    intro x hx
    have hasked : x.Next ⟨.asked r, s⟩ := hx.unseen.next _ rfl rfl rfl
    have hrest : ∀ y : Sighting κ, y = ⟨.answered r a, s₁⟩ → Links y es' (·.Since none s') := by
      rintro y rfl
      exact ihrest _ (since_of_not_asked nofun)
    have hlinks := Links.cons hasked (ihrequest.append hrest)
    rwa [List.append_assoc] at hlinks
  | @call s s' es k signal _ ih =>
    intro x hx
    have hcalled := ih _ (since_of_not_asked (x := ⟨.called k signal, s⟩) nofun)
    refine .cons hx (hcalled.append fun y hy => ?_)
    exact .cons (hy.unseen.next _ rfl rfl rfl) (.nil rfl)
  | @ignored s r a hheeds ha =>
    have hsince : Since ⟨.asked r, s⟩ none (if s.heeds r then s.after r else s) := by
      refine since_asked ?_ (pauseDue?_eq_none ?_)
      · rintro now rfl
        exact accepted?_eq_none hheeds
      · rintro id paused ⟨⟩
        exact .inl hheeds
    rw [hheeds] at hsince
    exact answered ha (.nil hsince.unseen)
  | @done s r a hheeds hr htick ha =>
    have hsince : Since ⟨.asked r, s⟩ none (if s.heeds r then s.after r else s) := by
      refine since_asked (fun now hnow => (htick now hnow).elim) (pauseDue?_eq_none ?_)
      rintro id paused ⟨⟩
      cases hr
    rw [hheeds] at hsince
    exact answered ha (.nil hsince.unseen)
  | @dispatched s s' es event a ha _ ih =>
    have hsince : Since ⟨.asked (.dispatch event), s⟩ none s := since_asked (fun _ => nofun) rfl
    exact answered ha ((ih _ hsince).mono fun y hy => hy.unseen)
  | @ticked s s₁ s' es now tick hp _ ih =>
    have hheeds : s.heeds (.tick now) = true := by
      simp [FrameScheduler.heeds, FrameScheduler.alone, World.heeds, hp]
    have hafter : s.after (.tick now) = s₁ := by
      simp [FrameScheduler.after, FrameScheduler.alone, World.commit, hp]
    have hsince : Since ⟨.asked (.tick now), s⟩ (some tick)
        (if s.heeds (.tick now) then s.after (.tick now) else s) :=
      since_asked (fun now' hnow => by cases hnow; exact accepted?_eq_some hp) rfl
    rw [hheeds, if_pos rfl, hafter] at hsince
    exact (ih _ hsince).append fun y hy => .cons (hy.unseen.next _ rfl rfl rfl) (.nil rfl)
  | @stirred s s' es r a hheeds hr hquiet ha _ ih =>
    have hsince : Since ⟨.asked r, s⟩ none (if s.heeds r then s.after r else s) := by
      refine since_asked ?_ (pauseDue?_eq_none ?_)
      · rintro now rfl
        cases hr
      · rintro id paused ⟨⟩
        exact .inr (hquiet id paused rfl)
    rw [hheeds] at hsince
    exact answered ha (ih _ hsince)
  | @paused s s₁ s' es es' id paused k a hheeds hk ha _ _ ihcall ihclock =>
    refine answered ha ((ihcall _ (next_pause hheeds hk)).append ?_)
    rintro _ rfl
    exact ihclock _ (since_returned k s₁ none)
  | @steady s hquiet =>
    intro x hx
    rcases hquiet with hsame | hunheard
    · rw [FrameScheduler.refresh_of_eq_none hsame]
      exact .nil hx.unseen
    · exact .nil ⟨s, hx, .inr ⟨rfl, hunheard⟩⟩
  | @switched s s' es running k hchange hk _ ih =>
    intro x hx
    refine (ih x (hx.next_clock hchange hk)).mono ?_
    rintro _ rfl
    exact (since_returned k s' none).unseen
  | served s tick => exact fun x hx => .nil hx
  | passed _ _ ih => exact ih
  | @turn s s₁ s₂ s' es es' tick id ids k htake _ _ ihcall ihrest =>
    intro x hx
    obtain ⟨_, _, _, _, rfl⟩ := FrameScheduler.takeCallback?_eq_some_iff.1 htake
    have hcalled := (hx.modify id fun _ => none).unseen.next (.called k (.tick id tick)) rfl rfl rfl
    refine (ihcall x hcalled).append ?_
    rintro _ rfl
    exact ihrest _ ((since_returned k s₂ (some tick)).modify id _)
  | silent s => exact fun x hx => .nil hx
  | @pressed s s₁ s' es es' k signal hsignal _ _ ihcall ihrest =>
    intro x hx
    have hcalled : x.Next ⟨.called k signal, s⟩ := by
      cases signal with
      | shortcut press prevented => exact hx.unseen.next _ rfl rfl rfl
      | key id press prevented => exact hx.unseen.next _ rfl rfl rfl
      | _ => cases hsignal
    refine (ihcall x hcalled).append ?_
    rintro _ rfl
    exact ihrest _ (since_returned k s₁ none)

/-- Something that passes from each moment to the next, as long as the moments are such as `P`
says, and what it means for neighbours. -/
theorem along_chain {R : Sighting κ → Sighting κ → Prop} {I P : Sighting κ → Prop}
    {x : Sighting κ} {es : List (Sighting κ)}
    (hstep : ∀ x y, x.Next y → I x → P y → R x y ∧ I y) (hchain : (x :: es).IsChain Next)
    (hx : I x) (hes : ∀ y ∈ es, P y) : (x :: es).IsChain R ∧ ∀ y ∈ x :: es, I y := by
  induction es generalizing x with
  | nil => exact ⟨.singleton x, by simpa using hx⟩
  | cons y es ih =>
    obtain ⟨hxy, hrest⟩ := List.isChain_cons_cons.1 hchain
    rw [List.forall_mem_cons] at hes
    obtain ⟨hR, hy⟩ := hstep x y hxy hx hes.1
    obtain ⟨hchain', hall⟩ := ih hrest hy hes.2
    exact ⟨.cons_cons hR hchain', List.forall_mem_cons.2 ⟨hx, hall⟩⟩

/-- A new scheduler, as it is before anything is asked for. -/
def Sighting.fresh (interval : Duration) : Sighting κ := ⟨.answered .status .done, .new interval⟩

/-- Between requests the scheduler is as it was when the last of them was answered. -/
theorem Course.last_frames {s s' : FrameScheduler κ} {es : List (Sighting κ)}
    (h : Course .free s es s') :
    ∀ x : Sighting κ, x.frames = s → ∃ y, (x :: es).getLast? = some y ∧ y.frames = s' := by
  generalize hspan : Span.free = span at h
  induction h with
  | rest s => exact fun x hx => ⟨x, rfl, hx⟩
  | @exchange s s₁ s' es es' r a _ _ _ ih =>
    intro x _
    obtain ⟨y, hlast, hy⟩ := ih hspan ⟨.answered r a, s₁⟩ rfl
    refine ⟨y, ?_, hy⟩
    rw [List.getLast?_cons_of_ne_nil (by simp), List.getLast?_append, hlast]
    rfl
  | _ => cases hspan

/-- A history is a chain of moments that begins with a new scheduler. -/
theorem World.Watched.links {b : Behaviour κ ω} {interval : Duration}
    {w : World κ (ω × List (Sighting κ))} (hw : w.Watched b interval) :
    Links (.fresh interval) w.history (·.frames = w.frames) :=
  have hfresh := since_of_not_asked (x := .fresh interval) nofun
  ⟨(hw.course.linked (.fresh interval) hfresh).1, hw.course.last_frames _ rfl⟩

theorem Sighting.Next.numbered {x y : Sighting κ} (hxy : x.Next y) (h : x.frames.Numbered) :
    y.frames.Numbered := by
  refine FrameScheduler.Numbered.alike ?_ hxy.alike
  rcases x.committed_eq with ⟨hsame, _⟩ | ⟨r, _, _, hafter⟩
  · exact hsame ▸ h
  · exact hafter ▸ h.after r

/-- At every moment observers are numbered. -/
theorem World.Watched.numbered {b : Behaviour κ ω} {interval : Duration}
    {w : World κ (ω × List (Sighting κ))} (hw : w.Watched b interval) :
    ∀ x ∈ w.history, x.frames.Numbered := by
  have hall := (along_chain (R := fun _ _ => True) (P := fun _ => True)
    (fun x y hxy hx _ => ⟨trivial, hxy.numbered hx⟩) hw.links.1
    (FrameScheduler.numbered_new interval) fun _ _ => trivial).2
  exact (List.forall_mem_cons.1 hall).2

theorem Sighting.Next.issued_le {x y : Sighting κ} (hxy : x.Next y) :
    x.frames.issued ≤ y.frames.issued := by
  rw [hxy.alike.issued]
  rcases x.committed_eq with ⟨hsame, _⟩ | ⟨r, _, _, hafter⟩
  · rw [hsame]
  · rw [hafter]
    exact x.frames.issued_le_after r

/-- Names are issued once: none that an observer has at some moment is given to another then or
later, even if the observer is gone by that time. -/
theorem World.Watched.name_fresh {b : Behaviour κ ω} {interval : Duration}
    {w : World κ (ω × List (Sighting κ))} (hw : w.Watched b interval)
    {before after : List (Sighting κ)} {x y : Sighting κ} (h : w.history = before ++ x :: after)
    (hy : y ∈ x :: after) {id : ObserverId} (hid : id ∈ x.frames.order) (k : κ) :
    (y.frames.add k).1 ≠ id := by
  have hold : id.index ≤ x.frames.issued := (hw.numbered x (by rw [h]; simp)).order_le id hid
  have hchain : (x :: after).IsChain fun x y => x.frames.issued ≤ y.frames.issued := by
    have hlinks := hw.links.1
    rw [h, ← List.cons_append] at hlinks
    exact hlinks.right_of_append.imp fun _ _ hxy => hxy.issued_le
  have hle : x.frames.issued ≤ y.frames.issued := by
    obtain rfl | hy := List.mem_cons.1 hy
    · exact Nat.le_refl _
    · exact (List.pairwise_cons.1 hchain.pairwise).1 y hy
  rintro rfl
  exact absurd (Nat.le_trans hold hle) (Nat.not_succ_le_self _)

end ViewHost
