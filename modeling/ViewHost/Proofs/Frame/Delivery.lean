import Mathlib
import ViewHost.Proofs.Frame.Roster

/-!
# Who hears of a tick

A tick is for the observers that are registered and awake when it begins, in the order
in which they came, and each of them has one turn. What callbacks ask for meanwhile can
take a turn away, from an observer that is gone or paused when it comes, but it cannot
add one. So what is called by a tick, and what those calls ask for, can be told turn by
turn from the log alone.

A callback is away while it runs and is put back after that, unless its observer is gone.
Between requests every observer has the callback that it was registered with, however
ticks are nested.
-/

namespace ViewHost

open Run

variable {κ ω : Type}

/-- What is written down behind `log` while some observers have their turns in a tick,
if no other tick comes in between. Whether an observer is called, and with which
callback, is decided by the log up to its turn. -/
inductive Turns (tick : FrameTick) :
    List (Occurrence κ) → List ObserverId → List (Occurrence κ) → Prop where
  | ended (log : List (Occurrence κ)) : Turns tick log [] []
  | passed {log entries : List (Occurrence κ)} {id : ObserverId} {ids : List ObserverId}
      (hasleep : ¬ (Roster.read log).IsAwake id) (hrest : Turns tick log ids entries) :
      Turns tick log (id :: ids) entries
  | called {log entries : List (Occurrence κ)} {id : ObserverId} {ids : List ObserverId}
      {k : κ} {meanwhile : List (Occurrence κ)}
      (hentry : ⟨id, k, false⟩ ∈ (Roster.read log).observers)
      (hmeanwhile : ∀ e ∈ meanwhile, e.tickOf? = none)
      (hrest : Turns tick (log ++ .called k (.tick id tick) :: meanwhile) ids entries) :
      Turns tick log (id :: ids) (.called k (.tick id tick) :: (meanwhile ++ entries))

/-- Those who are called are some of those who have a turn, in the same order. -/
theorem Turns.called_sublist {tick : FrameTick} {log entries : List (Occurrence κ)}
    {ids : List ObserverId} (h : Turns tick log ids entries) :
    (entries.filterMap Occurrence.tickOf?).Sublist ids := by
  induction h with
  | ended log => exact .slnil
  | passed _ _ ih => exact ih.cons _
  | called _ hmeanwhile _ ih =>
    rw [List.filterMap_cons, List.filterMap_append,
      List.filterMap_eq_nil_iff.2 hmeanwhile, List.nil_append]
    exact ih.cons_cons _

namespace Control

variable {call : Caller κ ω} {tick : FrameTick} {frames : FrameScheduler κ} {now : Timestamp}
variable {w w' : World κ ω}

/-- The turns of a tick come to an end if the calls do. -/
theorem completes_deliver (hcall : ∀ k id u, completes (call k (.tick id tick)) u = true)
    (ids : List ObserverId) (w : World κ ω) : completes (deliver call tick ids) w = true := by
  induction ids generalizing w with
  | nil => rfl
  | cons id ids ih =>
    refine completes_get_bind ?_
    cases w.frames.takeCallback? id with
    | none => exact ih w
    | some taken =>
      obtain ⟨k, frames⟩ := taken
      refine completes_modify_bind (completes_bind (hcall k id _) fun _ w₁ => ?_)
      exact completes_get_bind (completes_modify_bind (ih _))

/-- A pulse that is accepted is answered when all have had their turns. -/
theorem perform_tick_of_accepted (hp : w.frames.pulse now = .accepted tick frames)
    (hturns : deliver call tick frames.due { w with frames := frames } = .ok ⟨⟩ w') :
    perform call (.tick now) w = .ok (.ticked (some tick)) w' := by
  simp [perform, Control.tick, Functor.map, EStateM.map, bind, EStateM.bind, get, getThe,
    MonadStateOf.get, EStateM.get, hp, setFrames, modify, modifyGet, MonadStateOf.modifyGet,
    EStateM.modifyGet, hturns, pure, EStateM.pure]

end Control

namespace World

variable {b : Behaviour κ ω} {w w' : World κ (ω × List (Occurrence κ))}

/-- One turn after the other. -/
theorem ends_deliver_turns (b : Behaviour κ ω) (budget : Nat) (tick : FrameTick)
    (ids : List ObserverId) : ∀ w : World κ (ω × List (Occurrence κ)),
    w.frames.Follows w.roster [] →
    Ends (Control.deliver (Control.call b.logged budget) tick ids) w fun _ w' =>
      ∃ entries, w'.log = w.log ++ entries ∧
        ((∀ e ∈ entries, e.asksTick = false) → Turns tick w.log ids entries) := by
  induction ids with
  | nil =>
    intro w _
    exact ends_pure ⟨[], by simp, fun _ => .ended _⟩
  | cons id ids ih =>
    intro w hw
    refine ends_get_bind ?_
    cases htake : w.frames.takeCallback? id with
    | none =>
      refine Ends.bind (ends_pure ((ih w hw).mono ?_))
      rintro _ w' ⟨entries, hlog, hturns⟩
      refine ⟨entries, hlog, fun hsole => .passed ?_ (hturns hsole)⟩
      -- nobody's callback is away, so it is not for that that the turn is passed
      have hasleep : w.frames.isAwake id = false := by
        apply FrameScheduler.takeCallback?_eq_none htake
        intro o ho
        obtain ⟨e, _, _, _, hcallback⟩ := hw.exists_enrolled ho
        simp [hcallback]
      rw [roster] at hw
      rw [← hw.isAwake_iff, hasleep]
      exact Bool.false_ne_true
    | some taken =>
      obtain ⟨k, frames⟩ := taken
      obtain ⟨_, _, hentry⟩ := hw.take htake
      refine Ends.bind (ends_modify (Ends.bind ?_))
      refine (((Control.ends_call (upkeep_attends b) budget).1 k (.tick id tick) _).and
        ((Control.ends_call (upkeep_tells b) budget).1 k (.tick id tick) _)).mono ?_
      rintro _ w₁ ⟨hattends, meanwhile, hlog₁, haccounted⟩
      have hrestored := Attends.turn tick htake hattends
      refine ends_get_bind (Ends.bind (ends_modify ((ih _ (hrestored.follows [] hw)).mono ?_)))
      rintro _ w' ⟨entries, hlog, hturns⟩
      have hlog₂ : w₁.log = w.log ++ .called k (.tick id tick) :: meanwhile := by
        rw [hlog₁, log_enter, List.append_assoc]
        rfl
      refine ⟨.called k (.tick id tick) :: (meanwhile ++ entries), ?_, ?_⟩
      · rw [hlog, ← List.cons_append, ← List.append_assoc, ← hlog₂]
        rfl
      · intro hsole
        rw [List.forall_mem_cons, List.forall_mem_append] at hsole
        refine .called hentry ?_ ?_
        · intro e he
          cases hcalled : e.tickOf? with
          | none => rfl
          | some id' =>
            obtain ⟨e', he', hasks⟩ := haccounted.tick ⟨e, he, by rw [hcalled]; rfl⟩
            rw [hsole.2.1 e' he'] at hasks
            cases hasks
        · rw [← hlog₂]
          exact hturns hsole.2.2

/-- A tick that is accepted. -/
theorem ends_tick_turns (b : Behaviour κ ω) (budget : Nat) (now : Timestamp)
    (hw : w.frames.Follows w.roster []) :
    Ends (Control.run b.logged budget (.tick now)) (w.ask (.tick now)) fun a w' =>
      ∀ tick, a = .ticked (some tick) → ∃ entries,
        w'.log = w.log ++ .asked (.tick now) :: entries ∧
        ((∀ e ∈ entries, e.asksTick = false) →
          Turns tick (w.log ++ [.asked (.tick now)]) w.roster.due entries) := by
  refine Ends.map _ (ends_get_bind ?_)
  cases hp : (w.ask (.tick now)).frames.pulse now with
  | ignored =>
    refine ends_pure ?_
    intro tick htick
    cases htick
  | overflow => exact ends_throw _
  | accepted tick frames =>
    have hframes := hw.accepted hp
    let w₁ : World κ (ω × List (Occurrence κ)) := { w.ask (.tick now) with frames := frames }
    have hroster : w₁.roster = w.roster := Roster.read_asked ..
    refine Ends.bind (ends_modify (Ends.bind ?_))
    rw [hframes.due_eq]
    refine (ends_deliver_turns b budget tick _ w₁ (hroster ▸ hframes)).mono ?_
    rintro _ w' ⟨entries, hlog, hturns⟩
    refine ends_pure ?_
    intro tick' htick'
    cases htick'
    refine ⟨entries, ?_, hturns⟩
    rw [hlog]
    exact List.append_assoc ..

/-- Between requests the order names exactly the observers that are registered, each of
them once, and each has the callback that it was registered with. A tick that is accepted
returns if the callbacks do. If no other tick is asked for in it, then those who were
registered and awake when it began have their turns, in the order in which they came, and
no one else is called. -/
theorem Reached.ticks_follow_roster {interval : Duration} (hw : w.Reached b interval) :
    w.frames.order = w.roster.ids ∧ w.frames.order.Nodup ∧
    (∀ id, id ∈ w.frames.order ↔ id ∈ w.frames.observers) ∧
    (∀ id o, w.frames.observers[id]? = some o →
      ∃ k, o.callback = some k ∧ ⟨id, k, o.paused⟩ ∈ w.roster.observers) ∧
    (∀ budget now tick frames, w.frames.pulse now = .accepted tick frames →
      (∀ k id u, completes (Control.call b.logged budget k (.tick id tick)) u = true) →
      ∃ w', Control.run b.logged budget (.tick now) (w.ask (.tick now)) =
        .ok (.ticked (some tick)) w') ∧
    ∀ budget now tick w',
      Control.run b.logged budget (.tick now) (w.ask (.tick now)) = .ok (.ticked (some tick)) w' →
      ∃ entries, w'.log = w.log ++ .asked (.tick now) :: entries ∧
        ((∀ e ∈ entries, e.asksTick = false) →
          Turns tick (w.log ++ [.asked (.tick now)]) w.roster.due entries ∧
          (entries.filterMap Occurrence.tickOf?).Sublist w.roster.due ∧
          w.roster.due.Nodup) := by
  have hfollows := hw.follows
  refine ⟨hfollows.order, hfollows.nodup, fun _ => hfollows.mem_order_iff, ?_, ?_, ?_⟩
  · intro id o ho
    obtain ⟨e, he, rfl, hpaused, hcallback⟩ := hfollows.exists_enrolled ho
    refine ⟨e.callback, hcallback, ?_⟩
    rw [hpaused]
    exact he
  · intro budget now tick frames hp hcall
    obtain ⟨⟨⟩, hturns⟩ := exists_eq_ok_of_completes (Control.completes_deliver hcall frames.due
      { w.ask (.tick now) with frames := frames })
    exact ⟨_, Control.perform_tick_of_accepted hp hturns⟩
  · intro budget now tick w' hrun
    obtain ⟨entries, hlog, hturns⟩ := ends_tick_turns b budget now hfollows _ w' hrun tick rfl
    refine ⟨entries, hlog, fun hsole => ?_⟩
    have hin_turn := hturns hsole
    exact ⟨hin_turn, hin_turn.called_sublist, hfollows.nodup_due⟩

/-- When the first callback is called, it lets the second observer go and registers a
fourth one. -/
def substitute : Behaviour Nat Nat where
  enter _ _ _ := 0
  request k asked :=
    match k, asked with
    | 1, 0 => some (.unregister ⟨2⟩, 1)
    | 1, 1 => some (.register 4, 2)
    | _, _ => none
  answer _ _ asked := asked
  leave _ asked := asked

/-- Three observers, none of which has been called. -/
def three : World Nat (Nat × List (Occurrence Nat)) :=
  [1, 2, 3].foldl (fun w k => final (Control.run substitute.logged 1 (.register k))
    (w.ask (.register k))) (.new .zero (0, []))

theorem reached_three : three.Reached substitute .zero := by
  have hnone : (World.new .zero (0, [])).Reached substitute .zero := .start 0
  have hone := hnone.final 1 (.register 1) (by cbv)
  have htwo := hone.final 1 (.register 2) (by cbv)
  exact htwo.final 1 (.register 3) (by cbv)

/-- The world after the first tick. -/
def threeTicked : World Nat (Nat × List (Occurrence Nat)) :=
  final (Control.run substitute.logged 4 (.tick .zero)) (three.ask (.tick .zero))

/-- The third observer has its turn although the second one is gone before its own, and
the fourth one is not called yet. -/
theorem three_ticks : ∃ tick entries,
    threeTicked.log = three.log ++ .asked (.tick .zero) :: entries ∧
    Turns tick (three.log ++ [.asked (.tick .zero)]) [⟨1⟩, ⟨2⟩, ⟨3⟩] entries ∧
    entries.filterMap Occurrence.tickOf? = [⟨1⟩, ⟨3⟩] := by
  have hrun : Control.run substitute.logged 4 (.tick .zero) (three.ask (.tick .zero)) =
      .ok (.ticked (some ⟨.zero, .zero⟩)) threeTicked := by cbv
  have hdue : three.roster.due = [⟨1⟩, ⟨2⟩, ⟨3⟩] := by cbv
  obtain ⟨entries, hlog, hturns⟩ := (reached_three.ticks_follow_roster).2.2.2.2.2 _ _ _ _ hrun
  have hentries : entries = threeTicked.log.drop 4 := by
    rw [hlog]
    rfl
  have hall : (threeTicked.log.drop 4).all (!·.asksTick) = true := by cbv
  have hsole : ∀ e ∈ entries, e.asksTick = false := by simpa [hentries] using hall
  refine ⟨_, entries, hlog, hdue ▸ (hturns hsole).1, ?_⟩
  rw [hentries]
  cbv

end World

end ViewHost
