import Mathlib
import ViewHost.Proofs.Frame.Moments

/-!
# What listeners are told

The clock listener is told when the clock is started or stopped, and a pause listener when
its observer is paused or wakes up. They are called while requests are only half carried
out, and what they ask for may start or stop the clock, or pause the observer, once more.
But every such change is told before anything else can happen. So a listener that stays
hears of each change once, in order, and what it was told last is how things are.
-/

namespace ViewHost

open FrameScheduler

variable {κ ω : Type}

/-! ## Telling of changes -/

/-- From one moment to the next a change of the state is told, and nothing else. What is gone
stays away. -/
def Relays (state? told? : Sighting κ → Option Bool) (x y : Sighting κ) : Prop :=
  match state? x with
  | none => told? y = none ∧ state? y = none
  | some q => told? y = none ∧ (state? y = some q ∨ state? y = none) ∨
      told? y = some !q ∧ state? y = some !q

namespace Relays

variable {state? told? : Sighting κ → Option Bool} {x y : Sighting κ} {q p : Bool}
variable {es before after : List (Sighting κ)}

theorem of_none (h : Relays state? told? x y) (hx : state? x = none) :
    told? y = none ∧ state? y = none := by
  rwa [Relays, hx] at h

theorem of_some (h : Relays state? told? x y) (hx : state? x = some q) :
    told? y = none ∧ (state? y = some q ∨ state? y = none) ∨
      told? y = some !q ∧ state? y = some !q := by
  rwa [Relays, hx] at h

theorem of_quiet (htold : told? y = none) (h : state? y = state? x ∨ state? y = none) :
    Relays state? told? x y := by
  rw [Relays]
  cases hx : state? x with
  | none =>
    rw [hx, or_self] at h
    exact ⟨htold, h⟩
  | some q =>
    rw [hx] at h
    exact .inl ⟨htold, h⟩

/-- A change is told, and what is told is a change. -/
theorem told_iff (h : Relays state? told? x y) :
    told? y = some p ↔ state? x = some !p ∧ state? y = some p := by
  constructor
  · intro htold
    cases hx : state? x with
    | none =>
      rw [(h.of_none hx).1] at htold
      cases htold
    | some q =>
      rcases h.of_some hx with ⟨hquiet, _⟩ | ⟨htold', hy⟩
      · rw [hquiet] at htold
        cases htold
      · rw [htold] at htold'
        cases htold'
        exact ⟨by rw [Bool.not_not], hy⟩
  · rintro ⟨hx, hy⟩
    rcases h.of_some hx with ⟨_, hsame | hgone⟩ | ⟨htold, _⟩
    · rw [hy] at hsame
      cases p <;> cases hsame
    · rw [hy] at hgone
      cases hgone
    · rwa [Bool.not_not] at htold

theorem gone (hchain : (x :: es).IsChain (Relays state? told?)) (hx : state? x = none) :
    es.filterMap told? = [] ∧ ∀ y ∈ es, state? y = none := by
  induction es generalizing x with
  | nil => exact ⟨rfl, by simp⟩
  | cons y es ih =>
    obtain ⟨hxy, hrest⟩ := List.isChain_cons_cons.1 hchain
    obtain ⟨htold, hy⟩ := hxy.of_none hx
    obtain ⟨hnone, hgone⟩ := ih hrest hy
    exact ⟨by rw [List.filterMap_cons_none htold, hnone], List.forall_mem_cons.2 ⟨hy, hgone⟩⟩

/-- What is told alternates. -/
theorem alternates (hchain : (x :: es).IsChain (Relays state? told?)) (hx : state? x = some q) :
    (q :: es.filterMap told?).IsChain (· ≠ ·) := by
  induction es generalizing x q with
  | nil => exact .singleton q
  | cons y es ih =>
    obtain ⟨hxy, hrest⟩ := List.isChain_cons_cons.1 hchain
    rcases hxy.of_some hx with ⟨htold, hy | hy⟩ | ⟨htold, hy⟩
    · rw [List.filterMap_cons_none htold]
      exact ih hrest hy
    · rw [List.filterMap_cons_none htold, (gone hrest hy).1]
      exact .singleton q
    · rw [List.filterMap_cons_some htold]
      exact .cons_cons (by simp) (ih hrest hy)

/-- What was told last is how things are. -/
theorem latest (hchain : (x :: (before ++ y :: after)).IsChain (Relays state? told?))
    (hx : state? x = some q) (hy : state? y = some p) :
    p = ((before ++ [y]).filterMap told?).getLast?.getD q := by
  induction before generalizing x q with
  | nil =>
    have hxy := (List.isChain_cons_cons.1 hchain).1
    rcases hxy.of_some hx with ⟨htold, hsame | hnone⟩ | ⟨htold, hother⟩
    · rw [hy] at hsame
      cases hsame
      simp [htold]
    · rw [hy] at hnone
      cases hnone
    · rw [hy] at hother
      cases hother
      simp [htold]
  | cons z before ih =>
    obtain ⟨hxz, hrest⟩ := List.isChain_cons_cons.1 hchain
    rcases hxz.of_some hx with ⟨htold, hz | hz⟩ | ⟨htold, hz⟩
    · rw [List.cons_append, List.filterMap_cons_none htold]
      exact ih hrest hz
    · have hnone := (gone hrest hz).2 y (by simp)
      rw [hy] at hnone
      cases hnone
    · rw [List.cons_append, List.filterMap_cons_some htold, List.getLast?_cons]
      exact ih hrest hz

end Relays

/-- Whether an observer is to be paused or to wake up. -/
def Request.pauses : Request κ → Bool
  | .setPaused .. => true
  | _ => false

namespace Sighting

variable {x y : Sighting κ} {k : κ} {id : ObserverId}

/-- What is asked for. -/
def request? (x : Sighting κ) : Option (Request κ) :=
  match x.moment with
  | .asked r => some r
  | _ => none

theorem request?_eq_some {r : Request κ} (h : x.moment = .asked r) : x.request? = some r := by
  rw [request?, h]

/-! ## The clock listener -/

/-- Whether the clock runs. -/
def clock? (x : Sighting κ) : Option Bool := some x.frames.running

/-- What the clock listener is called with. -/
def clockTold? (x : Sighting κ) : Option Bool := x.clockCall?.map (·.2)

/-- Nobody has been registered yet. -/
structure Vacant (x : Sighting κ) : Prop where
  standing? : ∀ id, x.committed.standing? id = none
  running : x.frames.running = false

/-- While nobody has been registered, the clock stands still. -/
theorem Vacant.next (h : x.Vacant) (hxy : x.Next y) (hy : ∀ k, y.moment ≠ .asked (.register k)) :
    (Relays clock? clockTold? x y ∧ y.clockCall? = none) ∧ y.Vacant := by
  have hvacant : ∀ id, y.frames.standing? id = none := by
    intro id
    rw [hxy.alike.standing? id, h.standing? id]
  have hunwanted : y.frames.wanted = false := by
    rw [Bool.eq_false_iff]
    intro hwanted
    obtain ⟨id, hawake⟩ := (y.frames.wanted_iff).1 hwanted
    rw [isAwake, isPaused?_eq, hvacant id] at hawake
    cases hawake
  have hstill : y.frames.running = false ∧ y.clockCall? = none := by
    rcases hxy.clock with ⟨hsame, _, hcall⟩ | ⟨hother, _, hsynced, _⟩
    · exact ⟨by rw [hsame, x.running_committed, h.running], hcall⟩
    · rw [Synced, hunwanted] at hsynced
      rw [hsynced, x.running_committed, h.running] at hother
      cases hother
  refine ⟨⟨?_, hstill.2⟩, ?_, hstill.1⟩
  · have hx : x.clock? = some false := congrArg some h.running
    rw [Relays, hx]
    exact .inl ⟨by rw [clockTold?, hstill.2]; rfl, .inl (congrArg some hstill.1)⟩
  · intro id
    rw [Option.eq_none_iff_forall_ne_some]
    intro o ho
    rcases y.committed_eq with ⟨hsame, _⟩ | ⟨r, hr, _, hafter⟩
    · rw [hsame, hvacant id] at ho
      cases ho
    · rw [hafter] at ho
      rcases exists_standing?_of_after ho with ⟨o', ho'⟩ | ⟨k, rfl, _⟩
      · rw [hvacant id] at ho'
        cases ho'
      · exact hy k hr

theorem vacant_fresh (interval : Duration) : (fresh interval : Sighting κ).Vacant :=
  ⟨fun _ => by simp [standing?, committed, fresh, FrameScheduler.new], rfl⟩

/-- The clock listener is told of each change of the clock. -/
theorem Next.relays_clock (hxy : x.Next y) (hk : x.committed.onClock = some k) :
    Relays clock? clockTold? x y ∧ ∀ k' running, y.clockCall? = some (k', running) → k' = k := by
  have hk' : y.frames.onClock = some k := hxy.alike.onClock.trans hk
  have hx : x.clock? = some x.frames.running := rfl
  rw [Relays, hx, clockTold?, clock?]
  rcases hxy.clock with ⟨hsame, _, hcall⟩ | ⟨hother, _, _, hcall⟩
  · rw [hcall, hsame, x.running_committed]
    exact ⟨.inl ⟨rfl, .inl rfl⟩, by simp⟩
  · rw [hcall, hk', hother, x.running_committed]
    refine ⟨.inr ⟨rfl, rfl⟩, ?_⟩
    rintro k' running ⟨⟩
    rfl

theorem onClock_committed (hk : x.frames.onClock = some k)
    (hx : ∀ k', x.moment ≠ .asked (.onClock k')) : x.committed.onClock = some k := by
  rcases x.committed_eq with ⟨hsame, _⟩ | ⟨r, hr, _, hafter⟩
  · rw [hsame, hk]
  · rw [hafter, onClock_after]
    split
    · next => exact (hx _ hr).elim
    · exact hk

/-! ## Pause listeners -/

/-- Whether an observer is paused, if it is there. -/
def paused? (id : ObserverId) (x : Sighting κ) : Option Bool := x.frames.isPaused? id

/-- What the pause listener of an observer is called with. -/
def pauseTold? (id : ObserverId) (x : Sighting κ) : Option Bool :=
  x.pauseCall?.bind fun call => if call.2.1 = id then some call.2.2 else none

/-- An observer that has been registered, and has `k` for its listener if it is still there. -/
structure Attended (id : ObserverId) (k : κ) (x : Sighting κ) : Prop where
  issued : id.index ≤ x.frames.issued
  listener : ∀ o, x.committed.standing? id = some o → o.2 = some k

/-- The pause listener is told of each change of its observer. -/
theorem Next.relays_pause (hxy : x.Next y) (h : x.Attended id k) :
    Relays (paused? id) (pauseTold? id) x y ∧
      ∀ k' paused, y.pauseCall? = some (k', id, paused) → k' = k := by
  have hstanding : y.frames.standing? id = x.committed.standing? id := hxy.alike.standing? id
  have hcall := hxy.pause
  -- nobody is told anything, and the observer is as it was unless it is gone
  have quiet : x.pauseDue? = none → (y.paused? id = x.paused? id ∨ y.paused? id = none) →
      Relays (paused? id) (pauseTold? id) x y ∧
        ∀ k' paused, y.pauseCall? = some (k', id, paused) → k' = k := by
    intro hdue hstate
    rw [hdue] at hcall
    refine ⟨.of_quiet (by rw [pauseTold?, hcall]; rfl) hstate, ?_⟩
    simp [hcall]
  rcases x.committed_eq with ⟨hsame, hignored⟩ | ⟨r, hr, hheeds, hafter⟩
  · apply quiet
    · exact pauseDue?_eq_none fun id' paused hx => .inl (hignored _ hx)
    · left
      rw [paused?, paused?, isPaused?_eq, isPaused?_eq, hstanding, hsame]
  · have hy : y.paused? id = ((x.frames.after r).standing? id).map (·.1) := by
      rw [paused?, isPaused?_eq, hstanding, hafter]
    have hx : x.paused? id = (x.frames.standing? id).map (·.1) := by
      rw [paused?, isPaused?_eq]
    have hdue : r.pauses = false → x.pauseDue? = none := by
      intro hne
      refine pauseDue?_eq_none fun id' paused hx => ?_
      rw [hr] at hx
      cases hx
      cases hne
    rw [standing?_after] at hy
    cases r with
    | register k' =>
      have hother : (⟨x.frames.issued + 1⟩ : ObserverId) ≠ id := by
        rintro rfl
        have hissued := h.issued
        simp only at hissued
        omega
      rw [if_neg hother] at hy
      exact quiet (hdue rfl) (.inl (hy.trans hx.symm))
    | unregister id' =>
      apply quiet (hdue rfl)
      dsimp only at hy
      by_cases heq : id' = id
      · rw [if_pos heq] at hy
        exact .inr hy
      · rw [if_neg heq] at hy
        exact .inl (hy.trans hx.symm)
    | onPause id' k' =>
      apply quiet (hdue rfl)
      dsimp only at hy
      by_cases heq : id' = id
      · rw [if_pos heq, Option.map_map] at hy
        exact .inl (hy.trans hx.symm)
      · rw [if_neg heq] at hy
        exact .inl (hy.trans hx.symm)
    | clearFrames => exact quiet (hdue rfl) (.inr hy)
    | setPaused id' paused =>
      dsimp only at hy
      have hold : x.frames.isPaused? id' = some !paused := by
        simpa [FrameScheduler.heeds, FrameScheduler.alone, World.heeds] using hheeds
      by_cases heq : id' = id
      · subst heq
        rw [if_pos rfl] at hy
        rw [isPaused?_eq] at hold
        obtain ⟨o, ho, hpaused⟩ := Option.map_eq_some_iff.1 hold
        have hlistener : o.2 = some k := by
          apply h.listener (paused, o.2)
          rw [hafter, standing?_after]
          dsimp only
          rw [if_pos rfl, ho]
          rfl
        have hdue' : x.pauseDue? = some (k, id', paused) := by
          rw [pauseDue?, hr]
          dsimp only
          rw [hheeds, if_pos rfl, onPause?_eq, ho, Option.bind_some, hlistener]
          rfl
        rw [hdue'] at hcall
        have hwas : x.paused? id' = some !paused := by rw [hx, ho, ← hpaused]; rfl
        have his : y.paused? id' = some paused := by rw [hy, ho]; rfl
        constructor
        · rw [Relays, hwas]
          exact .inr ⟨by simp [pauseTold?, hcall], by rw [his, Bool.not_not]⟩
        · rw [hcall]
          rintro k' paused' ⟨⟩
          rfl
      · rw [if_neg heq] at hy
        have hnone : ∀ k' paused', y.pauseCall? ≠ some (k', id, paused') := by
          intro k' paused' hsome
          rw [hcall, pauseDue?, hr] at hsome
          dsimp only at hsome
          rw [hheeds, if_pos rfl, Option.map_eq_some_iff] at hsome
          obtain ⟨_, _, hsame⟩ := hsome
          cases hsame
          exact heq rfl
        refine ⟨.of_quiet ?_ (.inl (hy.trans hx.symm)), fun k' paused' hsome => ?_⟩
        · rw [pauseTold?, Option.bind_eq_none_iff]
          rintro ⟨k', id'', paused'⟩ hsome
          rw [if_neg]
          rintro rfl
          exact hnone k' paused' hsome
        · exact (hnone k' paused' hsome).elim
    | _ => exact quiet (hdue rfl) (.inl (hy.trans hx.symm))

theorem Attended.next (h : x.Attended id k) (hxy : x.Next y)
    (hy : ∀ k', y.moment ≠ .asked (.onPause id k')) : y.Attended id k := by
  have hissued : id.index ≤ y.frames.issued := by
    have hx := h.issued
    rw [hxy.alike.issued]
    rcases x.committed_eq with ⟨hsame, _⟩ | ⟨r, _, _, hafter⟩
    · rwa [hsame]
    · rw [hafter]
      rcases x.frames.order_after r with ⟨_, hsame⟩ | ⟨_, _, _, hnext⟩ <;> omega
  refine ⟨hissued, fun o ho => ?_⟩
  rcases y.committed_eq with ⟨hsame, _⟩ | ⟨r, hr, _, hafter⟩
  · rw [hsame, hxy.alike.standing?] at ho
    exact h.listener o ho
  · rw [hafter] at ho
    have hother : ∀ k', r ≠ .onPause id k' := by
      rintro k' rfl
      exact hy k' hr
    obtain ⟨o', ho', hlistener⟩ := exists_listener_of_after hissued hother ho
    rw [hxy.alike.standing?] at ho'
    rw [← hlistener]
    exact h.listener o' ho'

/-- A listener is given to an observer that is there. -/
theorem attended_of_asked {paused : Bool} (hx : x.moment = .asked (.onPause id k))
    (hpaused : x.frames.isPaused? id = some paused) (hnumbered : x.frames.Numbered) :
    x.Attended id k := by
  rw [isPaused?_eq] at hpaused
  obtain ⟨o, ho, _⟩ := Option.map_eq_some_iff.1 hpaused
  refine ⟨hnumbered.standing_le id o ho, fun o' ho' => ?_⟩
  have hcommitted : x.committed = x.frames.after (.onPause id k) := by
    rw [committed, hx]
    rfl
  rw [hcommitted, standing?_after] at ho'
  dsimp only at ho'
  rw [if_pos rfl, ho] at ho'
  cases ho'
  rfl

end Sighting

open Sighting

namespace World

variable {b : Behaviour κ ω} {interval : Duration} {w : World κ (ω × List (Sighting κ))}

/-- Between requests the clock is meant to run if and only if ticks are wanted. -/
theorem Watched.synced (hw : w.Watched b interval) : w.frames.Synced := by
  induction hw with
  | start client =>
    refine Bool.eq_iff_iff.2 ⟨fun hrunning => (by cases hrunning), fun hwanted => ?_⟩
    obtain ⟨id, hawake⟩ := (wanted_iff _).1 hwanted
    simp [isAwake, isPaused?, World.new, FrameScheduler.new] at hawake
  | @run w w' _ budget r a hrun ih =>
    have herased := Control.run_watched b budget r w
    rw [hrun] at herased
    exact Control.ends_run (upkeep_synced b) budget rfl _ _ herased ih
  | meanwhile _ client ih => exact ih

/-- A clock listener that is there before anybody is registered, and stays. -/
theorem Watched.relays_clock (hw : w.Watched b interval) {before after : List (Sighting κ)}
    {m : Sighting κ} {k : κ} (h : w.history = before ++ m :: after)
    (hm : m.moment = .asked (.onClock k))
    (hfirst : ∀ x ∈ before, ∀ k', x.moment ≠ .asked (.register k'))
    (hstays : ∀ x ∈ after, ∀ k', x.moment ≠ .asked (.onClock k')) :
    (.fresh interval :: w.history).IsChain (Relays clock? clockTold?) ∧
      ∀ x ∈ w.history, ∀ k' running, x.clockCall? = some (k', running) → k' = k := by
  have hchain := hw.links.1
  rw [h] at hchain ⊢
  obtain ⟨hvacant, hattended⟩ := List.isChain_cons_split.1 hchain
  have hbefore := along_chain (R := Relays clock? clockTold?)
    (I := fun x => x.Vacant ∧ x.clockCall? = none)
    (P := fun x => ∀ k', x.moment ≠ .asked (.register k'))
    (fun x y hxy hx hy => ⟨(hx.1.next hxy hy).1.1, (hx.1.next hxy hy).2, (hx.1.next hxy hy).1.2⟩)
    hvacant ⟨vacant_fresh interval, rfl⟩ (by
      intro x hx
      rw [List.mem_append, List.mem_singleton] at hx
      rcases hx with hx | rfl
      · exact hfirst x hx
      · simp [hm])
  have hafter := along_chain (R := Relays clock? clockTold?)
    (I := fun x => x.committed.onClock = some k ∧
      ∀ k' running, x.clockCall? = some (k', running) → k' = k)
    (P := fun x => ∀ k', x.moment ≠ .asked (.onClock k'))
    (fun x y hxy hx hy => ⟨(hxy.relays_clock hx.1).1,
      onClock_committed (hxy.alike.onClock.trans hx.1) hy, (hxy.relays_clock hx.1).2⟩)
    hattended (by
      constructor
      · rw [committed, hm]
        rfl
      · simp [clockCall?, hm]) hstays
  refine ⟨List.isChain_cons_split.2 ⟨hbefore.1, hafter.1⟩, fun x hx k' running hcall => ?_⟩
  rw [List.mem_append] at hx
  rcases hx with hx | hx
  · have hnone := (hbefore.2 x (by simp [hx])).2
    rw [hcall] at hnone
    cases hnone
  · exact (hafter.2 x hx).2 k' running hcall

/-- A pause listener that stays. -/
theorem Watched.relays_pause (hw : w.Watched b interval) {before after : List (Sighting κ)}
    {m : Sighting κ} {id : ObserverId} {k : κ} {paused : Bool}
    (h : w.history = before ++ m :: after) (hm : m.moment = .asked (.onPause id k))
    (hpaused : m.frames.isPaused? id = some paused)
    (hstays : ∀ x ∈ after, ∀ k', x.moment ≠ .asked (.onPause id k')) :
    (m :: after).IsChain (Relays (paused? id) (pauseTold? id)) ∧
      ∀ x ∈ after, ∀ k' q, x.pauseCall? = some (k', id, q) → k' = k := by
  have hchain := hw.links.1
  rw [h] at hchain
  have hnumbered : m.frames.Numbered := hw.numbered m (by rw [h]; simp)
  have hafter := along_chain (R := Relays (paused? id) (pauseTold? id))
    (I := fun x => x.Attended id k ∧ ∀ k' q, x.pauseCall? = some (k', id, q) → k' = k)
    (P := fun x => ∀ k', x.moment ≠ .asked (.onPause id k'))
    (fun x y hxy hx hy =>
      ⟨(hxy.relays_pause hx.1).1, hx.1.next hxy hy, (hxy.relays_pause hx.1).2⟩)
    (List.isChain_cons_split.1 hchain).2 (by
      refine ⟨attended_of_asked hm hpaused hnumbered, ?_⟩
      simp [pauseCall?, hm]) hstays
  exact ⟨hafter.1, fun x hx => (hafter.2 x (by simp [hx])).2⟩

/-- Between requests the clock is meant to run if and only if an observer is awake. A clock
listener that is there before anybody is registered, and stays, is called with alternating
values, of which the first says that the clock runs; and at any moment the clock is as the
listener was told last. A pause listener that stays is called whenever its observer is paused
or wakes up, and on no other occasion; so it is called with alternating values as well, and
the observer is as the listener was told last as long as it is there. -/
theorem Watched.listeners_are_told (hw : w.Watched b interval) :
    (w.frames.running = true ↔ ∃ id, w.frames.isPaused? id = some false) ∧
    (∀ before m after k, w.history = before ++ m :: after → m.moment = .asked (.onClock k) →
      (∀ x ∈ before, ∀ k', x.moment ≠ .asked (.register k')) →
      (∀ x ∈ after, ∀ k', x.moment ≠ .asked (.onClock k')) →
      (false :: w.history.filterMap clockTold?).IsChain (· ≠ ·) ∧
      (∀ x ∈ w.history, ∀ k' running, x.clockCall? = some (k', running) → k' = k) ∧
      (∀ l x r, w.history = l ++ x :: r →
        x.frames.running = ((l ++ [x]).filterMap clockTold?).getLast?.getD false) ∧
      w.frames.running = (w.history.filterMap clockTold?).getLast?.getD false) ∧
    ∀ before m after id k paused, w.history = before ++ m :: after →
      m.moment = .asked (.onPause id k) → m.frames.isPaused? id = some paused →
      (∀ x ∈ after, ∀ k', x.moment ≠ .asked (.onPause id k')) →
      (paused :: after.filterMap (pauseTold? id)).IsChain (· ≠ ·) ∧
      (∀ x ∈ after, ∀ k' q, x.pauseCall? = some (k', id, q) → k' = k) ∧
      (∀ l x y r q, m :: after = l ++ x :: y :: r → (y.pauseTold? id = some q ↔
        x.frames.isPaused? id = some !q ∧ y.frames.isPaused? id = some q)) ∧
      ∀ l x r q, after = l ++ x :: r → x.frames.isPaused? id = some q →
        q = ((l ++ [x]).filterMap (pauseTold? id)).getLast?.getD paused := by
  refine ⟨?_, ?_, ?_⟩
  · rw [hw.synced, wanted_iff]
    exact exists_congr fun id => by rw [isAwake, beq_iff_eq]
  · intro before m after k h hm hfirst hstays
    obtain ⟨hrelays, hk⟩ := hw.relays_clock h hm hfirst hstays
    have hlatest : ∀ l x r, w.history = l ++ x :: r →
        x.frames.running = ((l ++ [x]).filterMap clockTold?).getLast?.getD false := by
      intro l x r hsplit
      rw [hsplit] at hrelays
      exact Relays.latest hrelays rfl rfl
    refine ⟨Relays.alternates hrelays rfl, hk, hlatest, ?_⟩
    obtain ⟨y, hlast, hy⟩ := hw.links.2
    rw [← hy]
    rcases List.eq_nil_or_concat w.history with hnil | ⟨l, x, hconcat⟩
    · rw [hnil] at hlast ⊢
      cases hlast
      rfl
    · rw [List.concat_eq_append] at hconcat
      rw [hconcat, List.getLast?_cons_of_ne_nil (by simp), List.getLast?_concat] at hlast
      cases hlast
      rw [hconcat]
      exact hlatest l y [] hconcat
  · intro before m after id k paused h hm hpaused hstays
    obtain ⟨hrelays, hk⟩ := hw.relays_pause h hm hpaused hstays
    refine ⟨Relays.alternates hrelays hpaused, hk, ?_, ?_⟩
    · intro l x y r q hsplit
      rw [hsplit] at hrelays
      exact Relays.told_iff (List.isChain_append_cons_cons.1 hrelays).2.1
    · intro l x r q hsplit hq
      rw [hsplit] at hrelays
      exact Relays.latest hrelays hpaused hq

/-- A pause listener that wakes its observer up at once when it hears that it is paused. -/
def waking : Behaviour Nat Bool where
  enter _ signal _ := signal == .pause ⟨1⟩ true
  request _ alarmed := if alarmed then some (.setPaused ⟨1⟩ false, false) else none
  answer _ _ alarmed := alarmed
  leave _ alarmed := alarmed

/-- There is a clock listener, an observer and its pause listener; and the observer is paused. -/
def woken : World Nat (Bool × List (Sighting Nat)) :=
  Run.final (Control.runAll waking 4 [.onClock 9, .register 1, .onPause ⟨1⟩ 8,
    .setPaused ⟨1⟩ true]) (.new .zero (false, []))

theorem watched_woken : woken.Watched waking .zero :=
  (Watched.start false).runAll (by cbv)

/-- The clock listener hears that the clock runs, and no more; the pause listener hears that its
observer is paused, and then, while it is being called, that the observer wakes up. -/
theorem woken_is_told :
    (false :: woken.history.filterMap clockTold?).IsChain (· ≠ ·) ∧
    woken.frames.running = (woken.history.filterMap clockTold?).getLast?.getD false ∧
    woken.history.filterMap clockTold? = [true] ∧
    (false :: (woken.history.drop 7).filterMap (pauseTold? ⟨1⟩)).IsChain (· ≠ ·) ∧
    (woken.history.drop 7).filterMap (pauseTold? ⟨1⟩) = [true, false] := by
  have hlength : woken.history.length = 16 := by cbv
  have hclock : woken.history = [] ++ woken.history[0] :: woken.history.drop 1 := by
    rw [List.getElem_cons_drop]
    rfl
  have hpause : woken.history =
      woken.history.take 6 ++ woken.history[6] :: woken.history.drop 7 := by
    rw [List.getElem_cons_drop, List.take_append_drop]
  have hrequests : (woken.history.drop 1).filterMap request? = [.register 1, .onPause ⟨1⟩ 8,
      .setPaused ⟨1⟩ true, .setPaused ⟨1⟩ false] := by cbv
  have hrequests' : (woken.history.drop 7).filterMap request? = [.setPaused ⟨1⟩ true,
      .setPaused ⟨1⟩ false] := by cbv
  obtain ⟨_, hclocked, hpaused⟩ := watched_woken.listeners_are_told
  obtain ⟨halternates, _, _, hrunning⟩ := hclocked _ _ _ 9 hclock (by cbv) (by simp) (by
    intro x hx k hk
    have hmem := List.mem_filterMap.2 ⟨x, hx, request?_eq_some hk⟩
    rw [hrequests] at hmem
    simp at hmem)
  have hpauses := hpaused _ _ _ ⟨1⟩ 8 false hpause (by cbv) (by cbv) (by
    intro x hx k hk
    have hmem := List.mem_filterMap.2 ⟨x, hx, request?_eq_some hk⟩
    rw [hrequests'] at hmem
    simp at hmem)
  exact ⟨halternates, hrunning, by cbv, hpauses.1, by cbv⟩

end World

end ViewHost
