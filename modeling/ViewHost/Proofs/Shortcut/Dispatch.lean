import Mathlib
import ViewHost.Proofs.Control.Log
import ViewHost.Proofs.Shortcut.History

/-!
# What a key event fires

A key event goes to one action at most, and to the key observers after that. Whatever
they ask for, they fire no action of their own unless they dispatch another event.
-/

namespace ViewHost

open Run

variable {κ ω : Type}

/-- The action that is called. -/
def Occurrence.shortcutOf? : Occurrence κ → Option κ
  | called k (.shortcut ..) => some k
  | _ => none

theorem Occurrence.Accounted.shortcuts_eq_nil {log : List (Occurrence κ)} (h : Accounted log)
    (hsole : ∀ e ∈ log, e.asksDispatch = false) : log.filterMap shortcutOf? = [] := by
  rw [List.filterMap_eq_nil_iff]
  intro e he
  cases hcalled : e.shortcutOf? with
  | none => rfl
  | some k =>
    have hpress : e.isPress = true := by
      cases e with
      | called k signal => cases signal <;> first | rfl | cases hcalled
      | asked r => cases hcalled
    obtain ⟨e', he', hasks⟩ := h.press ⟨e, he, hpress⟩
    rw [hsole e' he'] at hasks
    cases hasks

/-- What is written down while a press is announced. -/
inductive Announced (press : KeyPress) :
    List (KeyObserverId × κ) → List (Occurrence κ) → Prop where
  | ended : Announced press [] []
  | heard {o : KeyObserverId × κ} {observers : List (KeyObserverId × κ)}
      {entries meanwhile : List (Occurrence κ)} (prevented : Bool)
      (hmeanwhile : Occurrence.Accounted meanwhile) (hrest : Announced press observers entries) :
      Announced press (o :: observers)
        (.called o.2 (.key o.1 press prevented) :: (meanwhile ++ entries))

theorem Announced.shortcuts_eq_nil {press : KeyPress} {observers : List (KeyObserverId × κ)}
    {entries : List (Occurrence κ)} (h : Announced press observers entries)
    (hsole : ∀ e ∈ entries, e.asksDispatch = false) :
    entries.filterMap Occurrence.shortcutOf? = [] := by
  induction h with
  | ended => rfl
  | heard prevented hmeanwhile hrest ih =>
    rw [List.forall_mem_cons, List.forall_mem_append] at hsole
    rw [List.filterMap_cons, List.filterMap_append, hmeanwhile.shortcuts_eq_nil hsole.2.1,
      ih hsole.2.2]
    rfl

/-- What is written down of an event for which there is an action or none. The action is
called first, and no other one unless another event is dispatched meanwhile. -/
structure Fires (press : KeyPress) (action : Option κ) (d : KeyDispatch)
    (entries : List (Occurrence κ)) : Prop where
  fired : d.fired = action.isSome
  first : ∀ k, action = some k → entries.head? = some (.called k (.shortcut press false))
  sole : (∀ e ∈ entries, e.asksDispatch = false) →
    entries.filterMap Occurrence.shortcutOf? = action.toList

namespace World

variable {w : World κ (ω × List (Occurrence κ))}

theorem ends_announce_heard (b : Behaviour κ ω) (budget : Nat) (press : KeyPress)
    (observers : List (KeyObserverId × κ)) : ∀ w : World κ (ω × List (Occurrence κ)),
    Ends (Control.announce (Control.call b.logged budget) press observers) w fun _ w' =>
      ∃ entries, w'.log = w.log ++ entries ∧ Announced press observers entries := by
  induction observers with
  | nil =>
    intro w
    exact ends_pure ⟨[], by simp, .ended⟩
  | cons o observers ih =>
    intro w
    refine ends_get_bind (Ends.bind ?_)
    have hcall := (Control.ends_call (upkeep_tells b) budget).1 o.2 (.key o.1 press w.prevented) w
    refine hcall.mono ?_
    rintro _ w₁ ⟨meanwhile, hlog₁, haccounted⟩
    refine (ih w₁).mono ?_
    rintro _ w' ⟨entries, hlog, hrest⟩
    refine ⟨.called o.2 (.key o.1 press w.prevented) :: (meanwhile ++ entries), ?_,
      .heard w.prevented haccounted hrest⟩
    rw [hlog, hlog₁, log_enter]
    simp

/-- An event, once it has been asked for, fires the action that there is for it. -/
theorem ends_dispatch_fires (b : Behaviour κ ω) (budget : Nat) (event : KeyEvent)
    (w : World κ (ω × List (Occurrence κ))) :
    Ends (Control.dispatch (Control.call b.logged budget) event) w fun d w' =>
      ∃ entries, w'.log = w.log ++ entries ∧
        Fires (KeyPress.ofEvent event) (w.keys.actionFor? (KeyPress.ofEvent event)) d entries := by
  -- the rest of it, when the action has been called if there is one
  have finish : ∀ (w₁ : World κ (ω × List (Occurrence κ))) (before : List (Occurrence κ))
      (action : Option κ), w₁.log = w.log ++ before →
      (∀ k, action = some k →
        before.head? = some (.called k (.shortcut (KeyPress.ofEvent event) false))) →
      ((∀ e ∈ before, e.asksDispatch = false) →
        before.filterMap Occurrence.shortcutOf? = action.toList) →
      Ends (do
        Control.announce (Control.call b.logged budget) (KeyPress.ofEvent event) w.keys.observers
        let prevented := (← get).prevented
        modify fun w' => { w' with prevented := w.prevented }
        return (⟨action.isSome, prevented⟩ : KeyDispatch)) w₁ fun d w' =>
        ∃ entries, w'.log = w.log ++ entries ∧
          Fires (KeyPress.ofEvent event) action d entries := by
    intro w₁ before action hlog₁ hfirst hsole
    refine Ends.bind ((ends_announce_heard b budget _ _ w₁).mono ?_)
    rintro _ w₂ ⟨entries, hlog₂, hannounced⟩
    refine ends_get_bind (Ends.bind (ends_modify (ends_pure ?_)))
    refine ⟨before ++ entries, ?_, rfl, ?_, ?_⟩
    · rw [← List.append_assoc, ← hlog₁]
      exact hlog₂
    · intro k hk
      rw [List.head?_append, hfirst k hk]
      rfl
    · intro hnone
      rw [List.forall_mem_append] at hnone
      rw [List.filterMap_append, hsole hnone.1, hannounced.shortcuts_eq_nil hnone.2,
        List.append_nil]
  refine ends_get_bind (Ends.bind (ends_modify ?_))
  dsimp only
  cases w.keys.actionFor? (KeyPress.ofEvent event) with
  | none =>
    refine finish _ [] none (List.append_nil _).symm ?_ fun _ => rfl
    intro k hk
    cases hk
  | some k =>
    refine Ends.bind (((Control.ends_call (upkeep_tells b) budget).1 k _ _).mono ?_)
    rintro _ w₁ ⟨meanwhile, hlog₁, haccounted⟩
    refine finish w₁ (.called k (.shortcut (KeyPress.ofEvent event) false) :: meanwhile) (some k)
      ?_ ?_ ?_
    · rw [hlog₁, log_enter, List.append_assoc]
      rfl
    · intro k' hk'
      cases hk'
      rfl
    · intro hnone
      rw [List.forall_mem_cons] at hnone
      rw [List.filterMap_cons, haccounted.shortcuts_eq_nil hnone.2]
      rfl

theorem ends_run_dispatch (b : Behaviour κ ω) (budget : Nat) (event : KeyEvent)
    (w : World κ (ω × List (Occurrence κ))) :
    Ends (Control.run b.logged budget (.dispatch event)) (w.ask (.dispatch event)) fun a w' =>
      ∀ d, a = .dispatched d → ∃ entries,
        w'.log = w.log ++ .asked (.dispatch event) :: entries ∧
        Fires (KeyPress.ofEvent event) (w.keys.actionFor? (KeyPress.ofEvent event)) d entries := by
  refine Ends.map _ ((ends_dispatch_fires b budget event _).mono ?_)
  rintro d w' ⟨entries, hlog, hfires⟩ d' hd
  cases hd
  refine ⟨entries, ?_, hfires⟩
  rw [hlog]
  exact List.append_assoc ..

end World

/-! ## The shortcuts of a log -/

/-- The registry after a request. -/
def ShortcutRegistry.after (r : ShortcutRegistry κ) : Request κ → ShortcutRegistry κ
  | .bind c k => (r.bind c k).2
  | .unbind c => (r.unbind c).2
  | .observeKeys k => (r.addObserver k).2
  | .ignoreKeys id => (r.removeObserver id).2
  | .clearKeys => r.clear
  | _ => r

/-- The registry after something that a log tells of. -/
def ShortcutRegistry.afterEntry (r : ShortcutRegistry κ) : Occurrence κ → ShortcutRegistry κ
  | .asked request => r.after request
  | .called .. => r

/-- The request that an edit is made by. -/
def ShortcutEdit.request : ShortcutEdit κ → Request κ
  | bind s action => .bind s.chord action
  | unbind s => .unbind s.chord
  | clear => .clearKeys

/-- A request for an edit. -/
def Occurrence.edit? : Occurrence κ → Option (Request κ)
  | asked (.bind c k) => some (.bind c k)
  | asked (.unbind c) => some (.unbind c)
  | asked .clearKeys => some .clearKeys
  | _ => none

theorem ShortcutRegistry.after_request (r : ShortcutRegistry κ) (e : ShortcutEdit κ) :
    r.after e.request = r.edit e := by
  cases e <;> rfl

/-- Only edits matter to the bindings. -/
theorem ShortcutRegistry.bindings_foldl_afterEntry (log : List (Occurrence κ)) :
    ∀ r r' : ShortcutRegistry κ, r.bindings = r'.bindings → r.made = r'.made →
      (log.foldl afterEntry r).bindings =
        ((log.filterMap Occurrence.edit?).foldl after r').bindings := by
  induction log with
  | nil =>
    intro r r' hbindings _
    exact hbindings
  | cons e log ih =>
    intro r r' hbindings hmade
    cases e with
    | called k signal => exact ih r r' hbindings hmade
    | asked request =>
      cases request with
      | bind c k =>
        apply ih
        · simp only [afterEntry, after, bind, unbind, hbindings, hmade]
        · exact congrArg (· + 1) hmade
      | unbind c =>
        apply ih
        · simp only [afterEntry, after, unbind, hbindings]
        · exact hmade
      | clearKeys => exact ih _ _ rfl hmade
      | _ => exact ih _ _ hbindings hmade

namespace World

variable {w w' w₁ w₂ : World κ (ω × List (Occurrence κ))} {r : Request κ}

/-- The registry has become what the log tells. -/
def Edits (w w' : World κ (ω × List (Occurrence κ))) : Prop :=
  ∃ rest, w'.log = w.log ++ rest ∧ w'.keys = rest.foldl ShortcutRegistry.afterEntry w.keys

theorem Edits.of_eq (hlog : w'.log = w.log) (hkeys : w'.keys = w.keys) : Edits w w' :=
  ⟨[], by rw [hlog, List.append_nil], hkeys⟩

theorem Edits.enter (b : Behaviour κ ω) (w : World κ (ω × List (Occurrence κ))) (k : κ)
    (signal : Signal) : Edits w (w.enter b.logged k signal) :=
  ⟨[.called k signal], rfl, rfl⟩

theorem Edits.trans (h : Edits w w₁) (h' : Edits w₁ w₂) : Edits w w₂ := by
  obtain ⟨rest, hlog, hkeys⟩ := h
  obtain ⟨rest', hlog', hkeys'⟩ := h'
  exact ⟨rest ++ rest', by rw [hlog', hlog, List.append_assoc],
    by rw [hkeys', hkeys, List.foldl_append]⟩

theorem keys_commit (w : World κ ω) (r : Request κ) : (w.commit r).keys = w.keys.after r := by
  cases r with
  | tick now =>
    rw [commit]
    split <;> rfl
  | _ => rfl

theorem Edits.commit (h : JustAsked r w w') : Edits w (w'.commit r) := by
  refine ⟨[.asked r], by rw [log_commit, h.log_eq], ?_⟩
  rw [keys_commit, h.keys_eq]
  rfl

/-- What is left at that is no edit. -/
theorem Edits.ignored (h : JustAsked r w w') (hheeds : w'.heeds r = false) : Edits w w' := by
  refine ⟨[.asked r], h.log_eq, h.keys_eq.trans ?_⟩
  cases r with
  | unregister id => rfl
  | setPaused id paused => rfl
  | tick now => rfl
  | _ => cases hheeds

theorem upkeep_edits (b : Behaviour κ ω) : Upkeep b.logged JustAsked (fun _ => Edits) Edits where
  refl w := .of_eq rfl rfl
  trans := .trans
  request hr := justAsked_of_request hr
  answer k a w := .of_eq rfl rfl
  leave k w := .of_eq rfl rfl
  ignored := .ignored
  commit h _ := .commit h
  during := .trans
  pause o k hmid _ _ := hmid.trans (.enter b _ k _)
  refresh hmid _ _ := hmid.trans (.of_eq rfl rfl)
  clock {r w w₁} running k hmid _ _ _ := by
    have hrefresh : Edits w₁ { w₁ with frames := w₁.frames.refresh.2 } := .of_eq rfl rfl
    exact (hmid.trans hrefresh).trans (.enter b _ k _)
  turn {now w w₁ w₂ id k frames} tick hmid _ hR := by
    have htaken : Edits w₁ { w₁ with frames := frames } := .of_eq rfl rfl
    have hcalled := (htaken.trans (.enter b _ k (.tick id tick))).trans hR
    exact (hmid.trans hcalled).trans (.of_eq rfl rfl)
  shortcut k press hmid := hmid.trans (.enter b _ k _)
  key id k press prevented hmid := hmid.trans (.enter b _ k _)
  prevented p hmid := hmid.trans (.of_eq rfl rfl)
  done hmid _ := hmid

/-- The shortcuts come from the edits that have been asked for, by callbacks or not. -/
theorem Reached.bindings_eq {b : Behaviour κ ω} {interval : Duration} (hw : w.Reached b interval)
    {history : List (ShortcutEdit κ)}
    (hhistory : w.log.filterMap Occurrence.edit? = history.map (·.request)) :
    w.keys.bindings = (ShortcutRegistry.ofHistory history).bindings := by
  have hkeys : w.keys = w.log.foldl ShortcutRegistry.afterEntry .empty := by
    clear hhistory
    induction hw with
    | start client => rfl
    | call _ budget r a hrun ih =>
      obtain ⟨rest, hlog, hkeys⟩ :=
        Control.ends_run (upkeep_edits b) budget (justAsked_ask _ r) a _ hrun
      rw [hkeys, hlog, List.foldl_append, ← ih]
    | meanwhile _ client ih => exact ih
  rw [hkeys, ShortcutRegistry.bindings_foldl_afterEntry w.log .empty .empty rfl rfl, hhistory,
    List.foldl_map]
  simp only [ShortcutRegistry.after_request]
  rfl

/-! ## Histories -/

/-- Whatever has been bound and unbound, with chords written in any way: to bind a chord
is reported as a replacement if and only if it is registered, and the registered chords
are those that are found and counted, each of them once. A key event fires an action if
and only if it goes down, is not a repetition, and matches something that is in force.
Of all that matches it is the one bound last whose action is called, and no other. -/
theorem shortcuts_follow_history (b : Behaviour κ ω) (history : List (ShortcutEdit κ))
    (w : World κ (ω × List (Occurrence κ)))
    (hw : w.keys.bindings = (ShortcutRegistry.ofHistory history).bindings) :
    (∀ (s : ChordSpelling) (action : κ),
      (w.keys.bind s.chord action).1 = true ↔ Registered history s.chord) ∧
    (∀ s : ChordSpelling, w.keys.isBound s.chord = true ↔ Registered history s.chord) ∧
    (∃ chords : Finset Chord, (∀ c, c ∈ chords ↔ Registered history c) ∧
      w.keys.commandCount = chords.card) ∧
    ∀ budget event d w', Control.run b.logged budget (.dispatch event) (w.ask (.dispatch event)) =
        .ok (.dispatched d) w' →
      let press := KeyPress.ofEvent event
      ∃ entries, w'.log = w.log ++ .asked (.dispatch event) :: entries ∧
        (d.fired = true ↔ event.isDown = true ∧ event.isRepeat = false ∧
          ∃ i s action, InForce history i s action ∧ s.fits press = true) ∧
        (d.fired = true → ∃ i s action, Latest history press i s action ∧
          entries.head? = some (.called action (.shortcut press false)) ∧
          ((∀ e ∈ entries, e.asksDispatch = false) →
            entries.filterMap Occurrence.shortcutOf? = [action])) ∧
        (d.fired = false → (∀ e ∈ entries, e.asksDispatch = false) →
          entries.filterMap Occurrence.shortcutOf? = []) := by
  have hr := ShortcutRegistry.records_ofHistory history
  have hisBound : ∀ c, w.keys.isBound c = true ↔ Registered history c := by
    intro c
    rw [ShortcutRegistry.isBound, hw]
    exact hr.isBound_iff c
  have haction : ∀ p, w.keys.actionFor? p = (ShortcutRegistry.ofHistory history).actionFor? p := by
    intro p
    simp only [ShortcutRegistry.actionFor?, ShortcutRegistry.bindingFor?, hw]
  refine ⟨fun s action => hisBound s.chord, fun s => hisBound s.chord, ?_, ?_⟩
  · rw [ShortcutRegistry.commandCount, hw]
    exact hr.exists_card
  · intro budget event d w' hrun press
    obtain ⟨entries, hlog, hfired, hfirst, hsole⟩ :=
      ends_run_dispatch b budget event w _ w' hrun d rfl
    rw [haction] at hfired hfirst hsole
    refine ⟨entries, hlog, ?_, ?_, ?_⟩
    · rw [hfired]
      exact hr.isSome_actionFor?
    · intro hd
      rw [hfired] at hd
      obtain ⟨action, hk⟩ := Option.isSome_iff_exists.1 hd
      obtain ⟨i, s, hlatest⟩ := hr.latest_of_actionFor? hk
      refine ⟨i, s, action, hlatest, hfirst action hk, fun hnone => ?_⟩
      rw [hsole hnone, hk]
      rfl
    · intro hd hnone
      rw [hfired, Option.isSome_eq_false_iff, Option.isNone_iff_eq_none] at hd
      rw [hsole hnone, hd]
      rfl

/-- A chord is bound by input, another one by code, and then the first one again, written
in another way. -/
def reboundByInput : List (ShortcutEdit Nat) :=
  [.bind (.input "K" .command) 1, .bind (.code ⟨40⟩ .command) 2,
    .bind (.input "k" (.union .command .capsLock)) 3]

/-- Callbacks that ask for nothing. -/
def silent : Behaviour Nat Unit where
  enter _ _ c := c
  request _ _ := none
  answer _ _ c := c
  leave _ c := c

def rebound : World Nat (Unit × List (Occurrence Nat)) :=
  { World.new .zero ((), []) with keys := ShortcutRegistry.ofHistory reboundByInput }

def commandK : KeyEvent := ⟨.character 'K', ⟨40⟩, true, .command, false, .zero⟩

def reboundFired : World Nat (Unit × List (Occurrence Nat)) :=
  final (Control.run silent.logged 2 (.dispatch commandK)) (rebound.ask (.dispatch commandK))

/-- A press makes two chords. One of them has been bound again, and so it counts. -/
theorem rebound_fires : ∃ i s entries, Latest reboundByInput (KeyPress.ofEvent commandK) i s 3 ∧
    reboundFired.log = rebound.log ++ .asked (.dispatch commandK) :: entries ∧
    entries.filterMap Occurrence.shortcutOf? = [3] := by
  have hrun : Control.run silent.logged 2 (.dispatch commandK)
      (rebound.ask (.dispatch commandK)) = .ok (.dispatched ⟨true, false⟩) reboundFired := by cbv
  obtain ⟨entries, hlog, -, hfires, -⟩ :=
    (shortcuts_follow_history silent reboundByInput rebound rfl).2.2.2 _ _ _ _ hrun
  obtain ⟨i, s, action, hlatest, hfirst, hsole⟩ := hfires rfl
  have hentries : entries = reboundFired.log.drop 1 := by
    rw [hlog]
    rfl
  have hall : (reboundFired.log.drop 1).all (!·.asksDispatch) = true := by cbv
  have hshortcuts : (reboundFired.log.drop 1).filterMap Occurrence.shortcutOf? = [3] := by cbv
  rw [← hentries] at hall hshortcuts
  have haction := hsole (by simpa using hall)
  rw [hshortcuts] at haction
  cases haction
  exact ⟨i, s, entries, hlatest, hlog, hshortcuts⟩

end World

end ViewHost
