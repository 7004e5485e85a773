import ViewHost.Proofs.Control.Mirror
import ViewHost.Proofs.Control.Runs

/-!
# Watching a run

Callbacks and the control thread meet at certain moments: when a callback is called or
returns, and when it asks for something or is answered. To watch a run is to write down
each of them, with the scheduler as it is then. What comes to pass between two moments
nobody can look at; so what the history of a run shows is all that can be seen of it.

The history is kept beside the state of the callbacks, who know nothing of it, and to
keep it changes nothing else.
-/

namespace ViewHost

variable {κ ω : Type}

/-- An occasion on which callbacks and the control thread meet. Requests from outside any
callback count as well. -/
inductive Moment (κ : Type) where
  | called (k : κ) (signal : Signal)
  | returned (k : κ)
  | asked (r : Request κ)
  | answered (r : Request κ) (a : Answer)

/-- A moment, and the scheduler as it is then. -/
structure Sighting (κ : Type) where
  moment : Moment κ
  frames : FrameScheduler κ

/-- What has been seen so far, oldest first. -/
def World.history (w : World κ (ω × List (Sighting κ))) : List (Sighting κ) := w.client.2

namespace Control

/-- Writes a moment down. -/
def see (m : Moment κ) : Control κ (ω × List (Sighting κ)) Unit :=
  modify fun w => { w with client := (w.client.1, w.history ++ [⟨m, w.frames⟩]) }

/-- Changes the state of the callbacks, and not the history. -/
def change (f : ω → ω) : Control κ (ω × List (Sighting κ)) Unit :=
  modify fun w => { w with client := (f w.client.1, w.history) }

/-- Answers a request while it is watched. -/
def exchange (call : Caller κ (ω × List (Sighting κ))) (r : Request κ) :
    Control κ (ω × List (Sighting κ)) Answer := do
  see (.asked r)
  let a ← perform call r
  see (.answered r a)
  return a

mutual

/-- Calls a callback and serves its requests until it returns. -/
def callWatched (b : Behaviour κ ω) :
    Nat → κ → Signal → Control κ (ω × List (Sighting κ)) Unit
  | 0, _, _ => throw .exhausted
  | budget + 1, k, signal => do
    see (.called k signal)
    change (b.enter k signal)
    serveWatched b budget k
    change (b.leave k)
    see (.returned k)

/-- Serves the requests of a callback that is running. -/
def serveWatched (b : Behaviour κ ω) : Nat → κ → Control κ (ω × List (Sighting κ)) Unit
  | 0, _ => throw .exhausted
  | budget + 1, k => do
    match b.request k (← get).client.1 with
    | none => return
    | some (r, client) =>
      change fun _ => client
      let a ← exchange (callWatched b budget) r
      change (b.answer k a)
      serveWatched b budget k

end

/-- Answers a request that comes from outside any callback, while it is watched. -/
def runWatched (b : Behaviour κ ω) (budget : Nat) (r : Request κ) :
    Control κ (ω × List (Sighting κ)) Answer :=
  exchange (callWatched b budget) r

/-! ## To watch changes nothing -/

section

variable {β : Type} {m : Control κ (ω × List (Sighting κ)) β} {m' : Control κ ω β}

theorem mirrors_see_bind (moment : Moment κ) (h : Mirrors Prod.fst m m') :
    Mirrors Prod.fst (see moment >>= fun _ => m) m' :=
  fun w => h { w with client := (w.client.1, w.history ++ [⟨moment, w.frames⟩]) }

theorem mirrors_change (f : ω → ω) : Mirrors Prod.fst
    (change f : Control κ (ω × List (Sighting κ)) Unit)
    (modify fun w => { w with client := f w.client }) := fun _ => rfl

theorem mirrors_exchange {call : Caller κ (ω × List (Sighting κ))} {call' : Caller κ ω}
    (hcall : ∀ k signal, Mirrors Prod.fst (call k signal) (call' k signal)) (r : Request κ) :
    Mirrors Prod.fst (exchange call r) (perform call' r) := by
  refine mirrors_see_bind _ ?_
  have hanswer := (mirrors_perform hcall r).bind fun a =>
    mirrors_see_bind (.answered r a) (mirrors_pure a)
  rwa [bind_pure] at hanswer

/-- The induction is on the budget, which callbacks and their requests share. -/
theorem mirrors_callWatched (b : Behaviour κ ω) (budget : Nat) :
    (∀ k signal, Mirrors Prod.fst (callWatched b budget k signal) (call b budget k signal)) ∧
      ∀ k, Mirrors Prod.fst (serveWatched b budget k) (serve b budget k) := by
  induction budget with
  | zero =>
    refine ⟨fun _ _ => ?_, fun _ => ?_⟩
    · rw [callWatched, call]
      exact mirrors_throw _
    · rw [serveWatched, serve]
      exact mirrors_throw _
  | succ budget ih =>
    obtain ⟨hcall, hserve⟩ := ih
    refine ⟨fun k signal => ?_, fun k w => ?_⟩
    · rw [callWatched, call]
      refine mirrors_see_bind _ ((mirrors_change _).bind fun _ => (hserve k).bind fun _ => ?_)
      have hleave := (mirrors_change (b.leave k)).bind fun _ =>
        mirrors_see_bind (.returned k) (mirrors_pure PUnit.unit)
      rwa [bind_pure] at hleave
    · rw [serveWatched, serve]
      refine mirrorsAt_get_bind ?_
      dsimp only [World.mapClient]
      cases b.request k w.client.1 with
      | none => exact mirrors_pure () w
      | some asked =>
        obtain ⟨r, client⟩ := asked
        refine (mirrors_change (fun _ => client) w).bind fun _ => ?_
        exact (mirrors_exchange hcall r).bind fun a =>
          (mirrors_change (b.answer k a)).bind fun _ => hserve k

end

/-- But for its history, a run that is watched ends or stops short as it does when it is not,
with the same answer and in the same world. -/
theorem run_watched (b : Behaviour κ ω) (budget : Nat) (r : Request κ)
    (w : World κ (ω × List (Sighting κ))) :
    run b budget r (w.mapClient Prod.fst) = mapResult Prod.fst (runWatched b budget r w) :=
  mirrors_exchange (mirrors_callWatched b budget).1 r w

end Control

/-- Worlds between requests that have been carried out completely, with what has been seen.
What callbacks will do may also change in between. -/
inductive World.Watched (b : Behaviour κ ω) (interval : Duration) :
    World κ (ω × List (Sighting κ)) → Prop where
  | start (client : ω) : Watched b interval (World.new interval (client, []))
  | run {w w' : World κ (ω × List (Sighting κ))} (hw : Watched b interval w) (budget : Nat)
      (r : Request κ) (a : Answer) (hrun : Control.runWatched b budget r w = .ok a w') :
      Watched b interval w'
  | meanwhile {w : World κ (ω × List (Sighting κ))} (hw : Watched b interval w) (client : ω) :
      Watched b interval { w with client := (client, w.history) }

namespace Control

/-- Answers requests from outside, one after the other, while they are watched. -/
def runAll (b : Behaviour κ ω) (budget : Nat) :
    List (Request κ) → Control κ (ω × List (Sighting κ)) Unit
  | [] => return
  | r :: rs => do
    let _ ← runWatched b budget r
    runAll b budget rs

end Control

theorem World.Watched.runAll {b : Behaviour κ ω} {interval : Duration} {budget : Nat}
    {rs : List (Request κ)} {w : World κ (ω × List (Sighting κ))} (hw : w.Watched b interval)
    (hends : Run.completes (Control.runAll b budget rs) w = true) :
    (Run.final (Control.runAll b budget rs) w).Watched b interval := by
  induction rs generalizing w with
  | nil => exact hw
  | cons r rs ih =>
    rw [Control.runAll] at hends ⊢
    cases hrun : Control.runWatched b budget r w with
    | ok a w' =>
      rw [Run.final_bind_of_ok hrun]
      refine ih (hw.run budget r a hrun) ?_
      rw [← hends, Run.completes, Run.completes]
      simp [bind, EStateM.bind, hrun]
    | error e w' => simp [Run.completes, bind, EStateM.bind, hrun] at hends

end ViewHost
