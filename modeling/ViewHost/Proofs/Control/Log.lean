import ViewHost.Proofs.Control.Mirror
import ViewHost.Proofs.Control.Upkeep

/-!
# The log of a run

Whatever callbacks do, it is written down which of them are called, with what, and what
they ask for. The log is kept beside the state of the callbacks, who know nothing of
it; so it tells of any callbacks what happened in which order.
-/

namespace ViewHost

open Run

variable {κ ω : Type}

/-- What a log tells of. -/
inductive Occurrence (κ : Type) where
  | called (k : κ) (signal : Signal)
  | asked (r : Request κ)
  deriving DecidableEq

namespace Occurrence

/-- An observer is called by a tick. -/
def tickOf? : Occurrence κ → Option ObserverId
  | called _ (.tick id _) => some id
  | _ => none

/-- A shortcut or a key observer is called. -/
def isPress : Occurrence κ → Bool
  | called _ (.shortcut ..) | called _ (.key ..) => true
  | _ => false

def asksTick : Occurrence κ → Bool
  | asked (.tick _) => true
  | _ => false

def asksDispatch : Occurrence κ → Bool
  | asked (.dispatch _) => true
  | _ => false

/-- Ticks and presses are delivered on request only. -/
structure Accounted (log : List (Occurrence κ)) : Prop where
  tick : (∃ e ∈ log, e.tickOf?.isSome) → ∃ e ∈ log, e.asksTick
  press : (∃ e ∈ log, e.isPress) → ∃ e ∈ log, e.asksDispatch

theorem Accounted.nil : Accounted ([] : List (Occurrence κ)) := by
  constructor <;> simp

theorem Accounted.append {log log' : List (Occurrence κ)} (h : Accounted log)
    (h' : Accounted log') : Accounted (log ++ log') := by
  constructor
  · rintro ⟨e, he, htick⟩
    rcases List.mem_append.1 he with he | he
    · obtain ⟨e', he', hasks⟩ := h.tick ⟨e, he, htick⟩
      exact ⟨e', List.mem_append_left _ he', hasks⟩
    · obtain ⟨e', he', hasks⟩ := h'.tick ⟨e, he, htick⟩
      exact ⟨e', List.mem_append_right _ he', hasks⟩
  · rintro ⟨e, he, hpress⟩
    rcases List.mem_append.1 he with he | he
    · obtain ⟨e', he', hasks⟩ := h.press ⟨e, he, hpress⟩
      exact ⟨e', List.mem_append_left _ he', hasks⟩
    · obtain ⟨e', he', hasks⟩ := h'.press ⟨e, he, hpress⟩
      exact ⟨e', List.mem_append_right _ he', hasks⟩

end Occurrence

/-- The same callbacks, with a log of what happens. -/
def Behaviour.logged (b : Behaviour κ ω) : Behaviour κ (ω × List (Occurrence κ)) where
  enter k signal c := (b.enter k signal c.1, c.2 ++ [.called k signal])
  request k c := (b.request k c.1).map fun (r, c') => (r, (c', c.2 ++ [.asked r]))
  answer k a c := (b.answer k a c.1, c.2)
  leave k c := (b.leave k c.1, c.2)

theorem Behaviour.mirrors_logged (b : Behaviour κ ω) : b.logged.Mirrors Prod.fst b where
  enter _ _ _ := rfl
  request k c := by
    rw [logged, Option.map_map]
    exact Option.map_id'.symm
  answer _ _ _ := rfl
  leave _ _ := rfl

/-- To keep a log changes nothing else: but for it, a run ends or stops short as it does
without, with the same answer and in the same world. -/
theorem Control.run_logged (b : Behaviour κ ω) (budget : Nat) (r : Request κ)
    (w : World κ (ω × List (Occurrence κ))) :
    run b budget r (w.mapClient Prod.fst) = mapResult Prod.fst (run b.logged budget r w) :=
  run_mapClient b.mirrors_logged budget r w

namespace World

def log (w : World κ (ω × List (Occurrence κ))) : List (Occurrence κ) := w.client.2

/-- A request from outside any callback is written down as well. -/
def ask (w : World κ (ω × List (Occurrence κ))) (r : Request κ) :
    World κ (ω × List (Occurrence κ)) :=
  { w with client := (w.client.1, w.log ++ [.asked r]) }

/-- Worlds between requests that have been carried out completely. What callbacks will
do may also change in between. -/
inductive Reached (b : Behaviour κ ω) (interval : Duration) :
    World κ (ω × List (Occurrence κ)) → Prop where
  | start (client : ω) : Reached b interval (World.new interval (client, []))
  | call {w w' : World κ (ω × List (Occurrence κ))} (hw : Reached b interval w) (budget : Nat)
      (r : Request κ) (a : Answer) (hrun : Control.run b.logged budget r (w.ask r) = .ok a w') :
      Reached b interval w'
  | meanwhile {w : World κ (ω × List (Occurrence κ))} (hw : Reached b interval w) (client : ω) :
      Reached b interval { w with client := (client, w.log) }

variable {b : Behaviour κ ω} {w w' w₁ w₂ : World κ (ω × List (Occurrence κ))} {r : Request κ}

theorem Reached.final {interval : Duration} (hw : w.Reached b interval) (budget : Nat)
    (r : Request κ) (hends : completes (Control.run b.logged budget r) (w.ask r) = true) :
    (Run.final (Control.run b.logged budget r) (w.ask r)).Reached b interval := by
  obtain ⟨a, hrun⟩ := exists_eq_ok_of_completes hends
  exact hw.call budget r a hrun

theorem log_enter (w : World κ (ω × List (Occurrence κ))) (k : κ) (signal : Signal) :
    (w.enter b.logged k signal).log = w.log ++ [.called k signal] := rfl

/-- A request has been written down, and nothing else has happened. -/
def JustAsked (r : Request κ) (w w' : World κ (ω × List (Occurrence κ))) : Prop :=
  ∃ c, w' = { w with client := (c, w.log ++ [.asked r]) }

theorem justAsked_ask (w : World κ (ω × List (Occurrence κ))) (r : Request κ) :
    JustAsked r w (w.ask r) := ⟨w.client.1, rfl⟩

theorem justAsked_of_request {k : κ} {c : ω × List (Occurrence κ)}
    (hr : b.logged.request k w.client = some (r, c)) : JustAsked r w { w with client := c } := by
  obtain ⟨⟨r', c'⟩, -, heq⟩ := Option.map_eq_some_iff.1 hr
  cases heq
  exact ⟨c', rfl⟩

theorem JustAsked.log_eq (h : JustAsked r w w') : w'.log = w.log ++ [.asked r] := by
  obtain ⟨c, rfl⟩ := h
  rfl

theorem JustAsked.frames_eq (h : JustAsked r w w') : w'.frames = w.frames := by
  obtain ⟨c, rfl⟩ := h
  rfl

theorem JustAsked.keys_eq (h : JustAsked r w w') : w'.keys = w.keys := by
  obtain ⟨c, rfl⟩ := h
  rfl

theorem log_commit (w : World κ (ω × List (Occurrence κ))) (r : Request κ) :
    (w.commit r).log = w.log := by
  cases r with
  | tick now =>
    rw [commit]
    split <;> rfl
  | _ => rfl

/-- The log has grown, and it accounts for what was called. -/
def Tells (w w' : World κ (ω × List (Occurrence κ))) : Prop :=
  ∃ rest, w'.log = w.log ++ rest ∧ Occurrence.Accounted rest

/-- The log has grown from the request `r` on. -/
def TellsOf (r : Request κ) (w w' : World κ (ω × List (Occurrence κ))) : Prop :=
  ∃ rest, w'.log = w.log ++ .asked r :: rest ∧ Occurrence.Accounted (.asked r :: rest)

theorem Tells.of_log_eq (h : w'.log = w.log) : Tells w w' :=
  ⟨[], by rw [h, List.append_nil], .nil⟩

theorem Tells.trans (h : Tells w w₁) (h' : Tells w₁ w₂) : Tells w w₂ := by
  obtain ⟨rest, hlog, hrest⟩ := h
  obtain ⟨rest', hlog', hrest'⟩ := h'
  exact ⟨rest ++ rest', by rw [hlog', hlog, List.append_assoc], hrest.append hrest'⟩

theorem TellsOf.tells (h : TellsOf r w w') : Tells w w' := by
  obtain ⟨rest, hlog, hrest⟩ := h
  exact ⟨_, hlog, hrest⟩

theorem TellsOf.trans (h : TellsOf r w w₁) (h' : Tells w₁ w₂) : TellsOf r w w₂ := by
  obtain ⟨rest, hlog, hrest⟩ := h
  obtain ⟨rest', hlog', hrest'⟩ := h'
  exact ⟨rest ++ rest', by rw [hlog', hlog, List.append_assoc]; rfl, hrest.append hrest'⟩

theorem TellsOf.of_asked (h : w'.log = w.log ++ [.asked r]) : TellsOf r w w' := by
  refine ⟨[], h, ?_, ?_⟩
  · rintro ⟨e, he, htick⟩
    cases List.mem_singleton.1 he
    cases htick
  · rintro ⟨e, he, hpress⟩
    cases List.mem_singleton.1 he
    cases hpress

/-- A call that is no tick and no press. -/
theorem Tells.enter (w : World κ (ω × List (Occurrence κ))) (k : κ) (signal : Signal)
    (htick : (Occurrence.called k signal).tickOf? = none)
    (hpress : (Occurrence.called k signal).isPress = false) :
    Tells w (w.enter b.logged k signal) := by
  refine ⟨[.called k signal], rfl, ?_, ?_⟩
  · rintro ⟨e, he, he'⟩
    cases List.mem_singleton.1 he
    rw [htick] at he'
    cases he'
  · rintro ⟨e, he, he'⟩
    cases List.mem_singleton.1 he
    rw [hpress] at he'
    cases he'

/-- A call that a request accounts for. -/
theorem TellsOf.enter (h : TellsOf r w w₁) (k : κ) (signal : Signal)
    (htick : (Occurrence.called k signal).tickOf?.isSome → (Occurrence.asked r).asksTick)
    (hpress : (Occurrence.called k signal).isPress → (Occurrence.asked r).asksDispatch) :
    TellsOf r w (w₁.enter b.logged k signal) := by
  obtain ⟨rest, hlog, hrest⟩ := h
  refine ⟨rest ++ [.called k signal], ?_, ?_, ?_⟩
  · rw [log_enter, hlog, List.append_assoc]
    rfl
  · rintro ⟨e, he, he'⟩
    rw [← List.cons_append, List.mem_append, List.mem_singleton] at he
    rcases he with he | rfl
    · obtain ⟨e', hmem, hasks⟩ := hrest.tick ⟨e, he, he'⟩
      exact ⟨e', List.mem_append_left _ hmem, hasks⟩
    · exact ⟨_, List.mem_cons_self, htick he'⟩
  · rintro ⟨e, he, he'⟩
    rw [← List.cons_append, List.mem_append, List.mem_singleton] at he
    rcases he with he | rfl
    · obtain ⟨e', hmem, hasks⟩ := hrest.press ⟨e, he, he'⟩
      exact ⟨e', List.mem_append_left _ hmem, hasks⟩
    · exact ⟨_, List.mem_cons_self, hpress he'⟩

theorem upkeep_tells (b : Behaviour κ ω) : Upkeep b.logged JustAsked TellsOf Tells where
  refl w := .of_log_eq rfl
  trans := .trans
  request hr := justAsked_of_request hr
  answer k a w := .of_log_eq rfl
  leave k w := .of_log_eq rfl
  ignored h _ := (TellsOf.of_asked h.log_eq).tells
  commit h _ := .of_asked (by rw [log_commit, h.log_eq])
  during := .trans
  pause o k hmid _ _ := hmid.enter k _ nofun nofun
  refresh hmid _ _ := hmid.tells.trans (.of_log_eq rfl)
  clock running k hmid _ _ _ := hmid.tells.trans (Tells.enter _ k _ rfl rfl)
  turn {now w w₁ w₂ id k frames} tick hmid _ hR := by
    have htaken : TellsOf (.tick now) w { w₁ with frames := frames } := hmid
    exact (htaken.enter k (.tick id tick) (fun _ => rfl) nofun).trans hR
  shortcut k press hmid := hmid.enter k _ nofun fun _ => rfl
  key id k press prevented hmid := hmid.enter k _ nofun fun _ => rfl
  prevented p hmid := hmid.trans (.of_log_eq rfl)
  done hmid _ := hmid.tells

end World

end ViewHost
