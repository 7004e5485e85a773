import Mathlib
import ViewHost.Proofs.Control.Indifferent

/-!
# Key events within key events

An action or a key observer may change the registry that it is called by, and may dispatch
another key event before it returns. What a key event is delivered to is settled when its
dispatch begins, and every dispatch keeps its own account of whether its default has been
prevented.

To say what belongs to a dispatch and what to one within it, the moments of a run are read
like a text with brackets: a request for a dispatch opens one and its answer closes it. What
comes to pass in a run that ends is balanced, so whatever is within brackets can be left out.
-/

namespace ViewHost

open Run

variable {κ ω : Type}

/-- Who is called with a key press: an action, or a key observer under its name. -/
structure Hearing (κ : Type) where
  callee : κ
  observer : Option KeyObserverId
  press : KeyPress

namespace Moment

/-- A dispatch begins. -/
def opens : Moment κ → Bool
  | asked (.dispatch _) => true
  | _ => false

/-- A dispatch is over. -/
def closes : Moment κ → Bool
  | answered (.dispatch _) _ => true
  | _ => false

/-- Somebody is called with a key press. -/
def hearing? : Moment κ → Option (Hearing κ)
  | called k (.shortcut press _) => some ⟨k, none, press⟩
  | called k (.key id press _) => some ⟨k, some id, press⟩
  | _ => none

/-- The platform is asked to leave the key alone. -/
def prevents : Moment κ → Bool
  | asked .preventDefault => true
  | _ => false

/-- It matters to no dispatch, unless somebody is called. -/
def plain (m : Moment κ) : Bool := !m.opens && !m.closes && !m.prevents

/-- The moments that are not within a dispatch that begins among them, if there are `n` such
dispatches already. -/
def own : Nat → List (Moment κ) → List (Moment κ)
  | _, [] => []
  | n, m :: ms =>
    if m.opens then own (n + 1) ms
    else if m.closes then own (n - 1) ms
    else if n = 0 then m :: own n ms
    else own n ms

variable {m : Moment κ} {ms ms' : List (Moment κ)}

theorem own_opens (hm : m.opens = true) (n : Nat) : own n (m :: ms) = own (n + 1) ms := by
  rw [own, if_pos hm]

theorem own_closes (hm : m.closes = true) (n : Nat) : own (n + 1) (m :: ms) = own n ms := by
  have hopens : m.opens = false := by
    cases m with
    | answered r a => rfl
    | _ => cases hm
  simp [own, hopens, hm]

theorem own_plain (ho : m.opens = false) (hc : m.closes = false) (n : Nat) :
    own n (m :: ms) = if n = 0 then m :: own n ms else own n ms := by
  simp [own, ho, hc]

theorem not_of_plain (hm : m.plain = true) :
    m.opens = false ∧ m.closes = false ∧ m.prevents = false := by
  simpa [plain, and_assoc] using hm

theorem any_prevents_iff : ms.any prevents = true ↔ .asked .preventDefault ∈ ms := by
  rw [List.any_eq_true]
  constructor
  · rintro ⟨m, hmem, hm⟩
    cases m with
    | asked r =>
      cases r with
      | preventDefault => exact hmem
      | _ => cases hm
    | _ => cases hm
  · exact fun hmem => ⟨_, hmem, rfl⟩

/-- Dispatches that begin among these moments end among them. -/
structure Balanced (ms : List (Moment κ)) : Prop where
  own_append : ∀ rest, own 0 (ms ++ rest) = own 0 ms ++ own 0 rest
  /-- Within a dispatch there is nothing to be seen of them. -/
  skip : ∀ n rest, own (n + 1) (ms ++ rest) = own (n + 1) rest

namespace Balanced

theorem nil : Balanced ([] : List (Moment κ)) := ⟨fun _ => rfl, fun _ _ => rfl⟩

theorem append (h : Balanced ms) (h' : Balanced ms') : Balanced (ms ++ ms') := by
  refine ⟨fun rest => ?_, fun n rest => ?_⟩
  · simp only [List.append_assoc, h.own_append, h'.own_append]
  · simp only [List.append_assoc, h.skip, h'.skip]

theorem plain (ho : m.opens = false) (hc : m.closes = false) : Balanced [m] := by
  refine ⟨fun rest => ?_, fun n rest => ?_⟩
  · show own 0 (m :: rest) = own 0 [m] ++ own 0 rest
    rw [own_plain ho hc, own_plain ho hc]
    rfl
  · show own (n + 1) (m :: rest) = own (n + 1) rest
    rw [own_plain ho hc, if_neg n.succ_ne_zero]

/-- A dispatch from its beginning to its end. Nothing of it is seen from outside. -/
theorem own_bracket (h : Balanced ms) (event : KeyEvent) (a : Answer) (rest : List (Moment κ))
    (n : Nat) : own n (.asked (.dispatch event) :: ms ++ [.answered (.dispatch event) a] ++ rest) =
      own n rest := by
  simp only [List.cons_append, List.append_assoc, List.nil_append]
  rw [own_opens rfl, h.skip, own_closes rfl]

theorem bracket (h : Balanced ms) (event : KeyEvent) (a : Answer) :
    Balanced (.asked (.dispatch event) :: ms ++ [.answered (.dispatch event) a]) := by
  refine ⟨fun rest => ?_, fun n rest => h.own_bracket event a rest (n + 1)⟩
  have hnone := h.own_bracket event a [] 0
  rw [List.append_nil] at hnone
  rw [hnone, h.own_bracket]
  rfl

end Balanced

end Moment

/-! ## Registries -/

namespace ShortcutRegistry

/-- The registries that requests lead to. -/
inductive Formed : ShortcutRegistry κ → Prop
  | empty : Formed .empty
  | after {r : ShortcutRegistry κ} (h : r.Formed) (request : Request κ) : Formed (r.after request)

/-- Observers stand in the order in which they have been named. -/
structure Ascending (r : ShortcutRegistry κ) : Prop where
  order : (r.observers.map (·.1.index)).Pairwise (· < ·)
  issued : ∀ o ∈ r.observers, o.1.index ≤ r.issued

theorem Ascending.after {r : ShortcutRegistry κ} (h : r.Ascending) (request : Request κ) :
    (r.after request).Ascending := by
  cases request with
  | observeKeys k =>
    refine ⟨?_, fun o ho => ?_⟩
    · rw [ShortcutRegistry.after, addObserver, List.map_append, List.pairwise_append]
      refine ⟨h.order, List.pairwise_singleton _ _, fun i hi j hj => ?_⟩
      obtain ⟨o, ho, rfl⟩ := List.mem_map.1 hi
      rw [List.mem_singleton.1 hj]
      exact Nat.lt_succ_of_le (h.issued o ho)
    · show o.1.index ≤ r.issued + 1
      obtain ho | ho := List.mem_append.1 ho
      · exact Nat.le_succ_of_le (h.issued o ho)
      · rw [List.mem_singleton.1 ho]
  | ignoreKeys id =>
    refine ⟨?_, fun o ho => h.issued o (List.mem_filter.1 ho).1⟩
    exact h.order.sublist (List.filter_sublist.map _)
  | clearKeys => exact ⟨List.Pairwise.nil, fun o ho => absurd ho List.not_mem_nil⟩
  | _ => exact ⟨h.order, h.issued⟩

theorem Formed.ascending {r : ShortcutRegistry κ} (h : r.Formed) : r.Ascending := by
  induction h with
  | empty => exact ⟨List.Pairwise.nil, fun o ho => absurd ho List.not_mem_nil⟩
  | after _ request ih => exact ih.after request

theorem issued_le_after (r : ShortcutRegistry κ) (request : Request κ) :
    r.issued ≤ (r.after request).issued := by
  cases request with
  | observeKeys k => exact Nat.le_succ _
  | _ => exact Nat.le_refl _

theorem issued_le_foldl (r : ShortcutRegistry κ) (requests : List (Request κ)) :
    r.issued ≤ (requests.foldl ShortcutRegistry.after r).issued := by
  induction requests generalizing r with
  | nil => exact Nat.le_refl _
  | cons request requests ih => exact Nat.le_trans (r.issued_le_after request) (ih _)

/-- Names are issued once: none that an observer has is given to another later, even if the
observer is gone by that time. -/
theorem Ascending.name_fresh {r : ShortcutRegistry κ} (h : r.Ascending)
    {o : KeyObserverId × κ} (ho : o ∈ r.observers) (requests : List (Request κ)) (k : κ) :
    ((requests.foldl ShortcutRegistry.after r).addObserver k).1 ≠ o.1 := by
  have hold := Nat.le_trans (h.issued o ho) (r.issued_le_foldl requests)
  intro hname
  rw [← hname] at hold
  exact absurd hold (Nat.not_succ_le_self _)

end ShortcutRegistry

namespace World

/-- What has come to pass, without a look at the scheduler. -/
def moments (w : World κ (ω × List (Sighting κ))) : List (Moment κ) := w.history.map (·.moment)

/-- A world in which one more moment has been seen. -/
def seen (m : Moment κ) (w : World κ (ω × List (Sighting κ))) : World κ (ω × List (Sighting κ)) :=
  { w with client := (w.client.1, w.history ++ [⟨m, w.frames⟩]) }

theorem moments_seen (m : Moment κ) (w : World κ (ω × List (Sighting κ))) :
    (w.seen m).moments = w.moments ++ [m] := List.map_append

/-- The moments `ms` lead from one world to another. They are balanced, and outside any
dispatch among them those on `heard` are called, in this order. -/
structure Passage (heard : List (Hearing κ)) (ms : List (Moment κ))
    (w w' : World κ (ω × List (Sighting κ))) : Prop where
  moments : w'.moments = w.moments ++ ms
  balanced : Moment.Balanced ms
  heard : (Moment.own 0 ms).filterMap Moment.hearing? = heard
  prevented : w'.prevented = (w.prevented || (Moment.own 0 ms).any Moment.prevents)
  formed : w.keys.Formed → w'.keys.Formed
  issued : w.keys.issued ≤ w'.keys.issued
  /-- Whoever comes meanwhile gets a new name. -/
  fresh : ∀ k id, .answered (.observeKeys k) (.keyObserver id) ∈ ms → w.keys.issued < id.index

namespace Passage

variable {heard heard' : List (Hearing κ)} {m : Moment κ} {ms ms' : List (Moment κ)}
variable {u v w w' : World κ (ω × List (Sighting κ))}

/-- A step that nothing is seen of. -/
theorem silent (hmoments : w'.moments = w.moments) (hprevented : w'.prevented = w.prevented)
    (hformed : w.keys.Formed → w'.keys.Formed) (hissued : w.keys.issued ≤ w'.keys.issued) :
    Passage [] [] w w' where
  moments := by rw [hmoments, List.append_nil]
  balanced := .nil
  heard := rfl
  prevented := by rw [hprevented]; exact (Bool.or_false _).symm
  formed := hformed
  issued := hissued
  fresh _ _ hmem := absurd hmem List.not_mem_nil

theorem refl (w : World κ (ω × List (Sighting κ))) : Passage [] [] w w :=
  silent rfl rfl id (Nat.le_refl _)

theorem trans (h : Passage heard ms u v) (h' : Passage heard' ms' v w) :
    Passage (heard ++ heard') (ms ++ ms') u w where
  moments := by rw [h'.moments, h.moments, List.append_assoc]
  balanced := h.balanced.append h'.balanced
  heard := by rw [h.balanced.own_append, List.filterMap_append, h.heard, h'.heard]
  prevented := by
    rw [h'.prevented, h.prevented, h.balanced.own_append, List.any_append, Bool.or_assoc]
  formed hu := h'.formed (h.formed hu)
  issued := Nat.le_trans h.issued h'.issued
  fresh k id hmem := by
    obtain hmem | hmem := List.mem_append.1 hmem
    · exact h.fresh k id hmem
    · exact Nat.lt_of_le_of_lt h.issued (h'.fresh k id hmem)

/-- What callbacks keep to themselves is not seen. -/
theorem change (h : Passage heard ms w w') (c c' : ω) : Passage heard ms
    { w with client := (c, w.history) } { w' with client := (c', w'.history) } :=
  ⟨h.moments, h.balanced, h.heard, h.prevented, h.formed, h.issued, h.fresh⟩

/-- What comes to pass between two moments, together with them. -/
theorem enclose {m' : Moment κ} (h : Passage [] ms (w.seen m) w') (hm : m.plain = true)
    (hm' : m'.plain = true) (hcall : m'.hearing? = none)
    (hfresh : ∀ k id, .answered (.observeKeys k) (.keyObserver id) ∈ [m, m'] →
      w.keys.issued < id.index) :
    Passage m.hearing?.toList (m :: ms ++ [m']) w (w'.seen m') := by
  obtain ⟨hopens, hcloses, hprevents⟩ := Moment.not_of_plain hm
  obtain ⟨hopens', hcloses', hprevents'⟩ := Moment.not_of_plain hm'
  have hlast : Moment.own 0 [m'] = [m'] := Moment.own_plain hopens' hcloses' 0
  have hown : Moment.own 0 (m :: ms ++ [m']) = m :: (Moment.own 0 ms ++ [m']) := by
    show Moment.own 0 (m :: (ms ++ [m'])) = _
    rw [Moment.own_plain hopens hcloses, if_pos rfl, h.balanced.own_append, hlast]
  refine ⟨?_, ?_, ?_, ?_, h.formed, h.issued, fun k id hmem => ?_⟩
  · rw [moments_seen, h.moments, moments_seen]
    simp
  · exact ((Moment.Balanced.plain hopens hcloses).append h.balanced).append
      (.plain hopens' hcloses')
  · rw [hown, List.filterMap_cons, List.filterMap_append, h.heard]
    cases hm : m.hearing? <;> simp [hcall]
  · have hinner : w'.prevented = (w.prevented || (Moment.own 0 ms).any Moment.prevents) :=
      h.prevented
    show w'.prevented = _
    rw [hown, hinner, List.any_cons, List.any_append, hprevents]
    simp [hprevents']
  · simp only [List.cons_append, List.mem_cons, List.mem_append, List.not_mem_nil, or_false] at hmem
    obtain hmem | hmem | hmem := hmem
    · exact hfresh k id (by simp [hmem])
    · exact h.fresh k id hmem
    · exact hfresh k id (by simp [hmem])

end Passage

/-- Moments lead from one world to another, and none of them is the call of an action or key
observer, unless within a dispatch. -/
def Quiet (w w' : World κ (ω × List (Sighting κ))) : Prop := ∃ ms, Passage [] ms w w'

theorem indifferent_quiet : Control.Indifferent (Quiet (κ := κ) (ω := ω)) where
  refl w := ⟨[], .refl w⟩
  trans := by
    rintro u v w ⟨ms, h⟩ ⟨ms', h'⟩
    exact ⟨ms ++ ms', h.trans h'⟩
  frames w s := ⟨[], .silent rfl rfl id (Nat.le_refl _)⟩
  keys w r := ⟨[], .silent rfl rfl (fun h => h.after r) (ShortcutRegistry.issued_le_after _ r)⟩

end World

/-- Who is to be called with a press: the action for it, if there is one, and then the
observers. -/
def ShortcutRegistry.audience (r : ShortcutRegistry κ) (press : KeyPress) : List (Hearing κ) :=
  ((r.actionFor? press).toList.map fun k => ⟨k, none, press⟩) ++
    r.observers.map fun o => ⟨o.2, some o.1, press⟩

/-- What comes to pass while an event is dispatched by a registry as it is at the beginning. -/
structure Dispatched (r : ShortcutRegistry κ) (event : KeyEvent) (d : KeyDispatch)
    (ms : List (Moment κ)) : Prop where
  balanced : Moment.Balanced ms
  heard : (Moment.own 0 ms).filterMap Moment.hearing? = r.audience (KeyPress.ofEvent event)
  first : ∀ k, r.actionFor? (KeyPress.ofEvent event) = some k →
    ms.head? = some (.called k (.shortcut (KeyPress.ofEvent event) false))
  fired : d.fired = (r.actionFor? (KeyPress.ofEvent event)).isSome
  prevented : d.prevented = (Moment.own 0 ms).any Moment.prevents
  fresh : ∀ k id, .answered (.observeKeys k) (.keyObserver id) ∈ ms → r.issued < id.index

namespace Control

open World

variable {call : Caller κ (ω × List (Sighting κ))}

section Operations

variable (hcall : ∀ k signal w, Ends (call k signal) w fun _ w' =>
  ∃ ms, Passage (Moment.called k signal).hearing?.toList (.called k signal :: ms) w w')

include hcall

/-- A call that is of no action and of no key observer. -/
theorem quiet_call (k : κ) (signal : Signal) (w : World κ (ω × List (Sighting κ)))
    (hsignal : signal.isPress = false) : Ends (call k signal) w fun _ w' => Quiet w w' := by
  refine (hcall k signal w).mono ?_
  rintro _ w' ⟨ms, h⟩
  have hheard : (Moment.called k signal).hearing? = none := by
    cases signal <;> first | rfl | cases hsignal
  rw [hheard] at h
  exact ⟨_, h⟩

theorem passage_announce (press : KeyPress) (observers : List (KeyObserverId × κ)) :
    ∀ w : World κ (ω × List (Sighting κ)), Ends (announce call press observers) w fun _ w' =>
      ∃ ms, Passage (observers.map fun o => ⟨o.2, some o.1, press⟩) ms w w' := by
  induction observers with
  | nil =>
    intro w
    exact ends_pure ⟨[], .refl w⟩
  | cons o observers ih =>
    intro w
    refine ends_get_bind (Ends.bind ((hcall o.2 _ w).mono ?_))
    rintro _ w₁ ⟨ms, h⟩
    refine (ih w₁).mono ?_
    rintro _ w' ⟨ms', h'⟩
    exact ⟨_, h.trans h'⟩

/-- The account of what is prevented is taken anew, and put back afterwards. -/
theorem ends_dispatch_dispatched (event : KeyEvent) (w : World κ (ω × List (Sighting κ))) :
    Ends (dispatch call event) w fun d w' => ∃ ms, w'.moments = w.moments ++ ms ∧
      Dispatched w.keys event d ms ∧ w'.prevented = w.prevented ∧
      (w.keys.Formed → w'.keys.Formed) ∧ w.keys.issued ≤ w'.keys.issued := by
  generalize hpress : KeyPress.ofEvent event = press
  -- the rest of it, when the action has been called if there is one
  have finish : ∀ (w₁ : World κ (ω × List (Sighting κ))) (ms : List (Moment κ)),
      Passage ((w.keys.actionFor? press).toList.map fun k => ⟨k, none, press⟩) ms
        { w with prevented := false } w₁ →
      (∀ k, w.keys.actionFor? press = some k →
        ms.head? = some (.called k (.shortcut press false))) →
      Ends (do
        announce call press w.keys.observers
        let prevented := (← get).prevented
        modify fun w' => { w' with prevented := w.prevented }
        return (⟨(w.keys.actionFor? press).isSome, prevented⟩ : KeyDispatch)) w₁ fun d w' =>
        ∃ ms, w'.moments = w.moments ++ ms ∧ Dispatched w.keys event d ms ∧
          w'.prevented = w.prevented ∧ (w.keys.Formed → w'.keys.Formed) ∧
          w.keys.issued ≤ w'.keys.issued := by
    intro w₁ ms h hfirst
    refine Ends.bind ((passage_announce hcall press _ w₁).mono ?_)
    rintro _ w₂ ⟨ms', h'⟩
    have hall := h.trans h'
    refine ends_get_bind (Ends.bind (ends_modify (ends_pure ?_)))
    refine ⟨ms ++ ms', hall.moments, ?_, rfl, hall.formed, hall.issued⟩
    subst hpress
    refine ⟨hall.balanced, hall.heard, fun k hk => ?_, rfl, hall.prevented, hall.fresh⟩
    rw [List.head?_append, hfirst k hk]
    rfl
  refine ends_get_bind (Ends.bind (ends_modify ?_))
  dsimp only
  rw [hpress]
  cases haction : w.keys.actionFor? press with
  | none =>
    rw [haction] at finish
    exact finish _ [] (.refl _) nofun
  | some k =>
    rw [haction] at finish
    refine Ends.bind ((hcall k (.shortcut press false) _).mono ?_)
    rintro _ w₁ ⟨ms, h⟩
    refine finish w₁ _ h fun k' hk' => ?_
    cases hk'
    rfl

/-- A dispatch with its answer, as it is seen. -/
theorem ends_exchange_dispatch (event : KeyEvent) (w : World κ (ω × List (Sighting κ))) :
    Ends (exchange call (.dispatch event)) w fun a w' => ∃ d ms, a = .dispatched d ∧
      w'.moments = w.moments ++ .asked (.dispatch event) :: ms ++
        [.answered (.dispatch event) (.dispatched d)] ∧
      Dispatched w.keys event d ms ∧ w'.prevented = w.prevented ∧
      (w.keys.Formed → w'.keys.Formed) ∧ w.keys.issued ≤ w'.keys.issued := by
  refine Ends.bind (ends_modify (Ends.bind (Ends.map _ ?_)))
  refine (ends_dispatch_dispatched hcall event _).mono ?_
  rintro d w₁ ⟨ms, hmoments, hd, hprevented, hformed, hissued⟩
  refine Ends.bind (ends_modify (ends_pure ⟨d, ms, rfl, ?_, hd, hprevented, hformed, hissued⟩))
  have hseen := congrArg (· ++ [Moment.answered (.dispatch event) (.dispatched d)]) hmoments
  simpa [moments, history] using hseen

/-- Whatever is asked for, no action and no key observer is called but within a dispatch. -/
theorem quiet_exchange (r : Request κ) (w : World κ (ω × List (Sighting κ))) :
    Ends (exchange call r) w fun _ w' => Quiet w w' := by
  cases hr : r.handlesKey with
  | false =>
    have hplain : (Moment.asked r).plain = true ∧ ∀ a, (Moment.answered r a).plain = true := by
      cases r <;> first | exact ⟨rfl, fun _ => rfl⟩ | cases hr
    have hnamed : Ends (perform call r) (w.seen (.asked r)) fun a _ => ∀ k id,
        Moment.answered r a = .answered (.observeKeys k) (.keyObserver id) →
          w.keys.issued < id.index := by
      intro a w₁ hrun k id hmoment
      cases hmoment
      cases hrun
      exact Nat.lt_succ_self _
    refine Ends.bind (ends_modify (Ends.bind ?_))
    refine ((indifferent_quiet.ends_perform (quiet_call hcall) hr _).and hnamed).mono ?_
    rintro a w₁ ⟨⟨ms, h⟩, hfresh⟩
    refine Ends.bind (ends_modify (ends_pure ⟨_, h.enclose hplain.1 (hplain.2 a) rfl ?_⟩))
    intro k id hmem
    obtain hmem | hmem := List.mem_pair.1 hmem
    · cases hmem
    · exact hfresh k id hmem.symm
  | true =>
    cases r with
    | dispatch event =>
      refine (ends_exchange_dispatch hcall event w).mono ?_
      rintro _ w' ⟨d, ms, -, hmoments, hd, hprevented, hformed, hissued⟩
      have hown := hd.balanced.own_bracket event (.dispatched d) [] 0
      rw [List.append_nil] at hown
      refine ⟨_, by rw [hmoments, List.append_assoc], hd.balanced.bracket event _, ?_, ?_, hformed,
        hissued, fun k id hmem => ?_⟩
      · rw [hown]
        rfl
      · rw [hown, hprevented]
        exact (Bool.or_false _).symm
      · exact hd.fresh k id (by simpa using hmem)
    | preventDefault =>
      refine Ends.bind (ends_modify (Ends.bind (Ends.bind (ends_modify (ends_pure ?_)))))
      refine Ends.bind (ends_modify (ends_pure ?_))
      refine ⟨[.asked .preventDefault, .answered .preventDefault .done], ?_, ?_, rfl, ?_, id,
        Nat.le_refl _, fun k id hmem => ?_⟩
      · simp [moments, history]
      · exact (Moment.Balanced.plain rfl rfl).append (.plain rfl rfl)
      · exact (Bool.or_true _).symm
      · simp at hmem
    | _ => cases hr

end Operations

/-- A callback that returns has been called, and after that only requests of it have been
served. The induction is on the budget, which callbacks and their requests share. -/
theorem passage_callWatched (b : Behaviour κ ω) (budget : Nat) :
    (∀ k signal w, Ends (callWatched b budget k signal) w fun _ w' =>
      ∃ ms, Passage (Moment.called k signal).hearing?.toList (.called k signal :: ms) w w') ∧
    ∀ k w, Ends (serveWatched b budget k) w fun _ w' => Quiet w w' := by
  induction budget with
  | zero =>
    refine ⟨fun k signal w => ?_, fun k w => ?_⟩
    · rw [callWatched]
      exact ends_throw _
    · rw [serveWatched]
      exact ends_throw _
  | succ budget ih =>
    obtain ⟨hcall, hserve⟩ := ih
    refine ⟨fun k signal w => ?_, fun k w => ?_⟩
    · rw [callWatched]
      refine Ends.bind (ends_modify (Ends.bind (ends_modify (Ends.bind ((hserve k _).mono ?_)))))
      rintro _ w₁ ⟨ms, h⟩
      refine Ends.bind (ends_modify (ends_modify ⟨ms ++ [.returned k], ?_⟩))
      have hserved : Passage [] ms (w.seen (.called k signal))
          { w₁ with client := (b.leave k w₁.client.1, w₁.history) } := h.change _ _
      exact hserved.enclose rfl rfl rfl (by simp)
    · rw [serveWatched]
      refine ends_get_bind ?_
      cases hr : b.request k w.client.1 with
      | none => exact ends_pure (indifferent_quiet.refl w)
      | some asked =>
        obtain ⟨r, client⟩ := asked
        refine Ends.bind (ends_modify (Ends.bind ((quiet_exchange hcall r _).mono ?_)))
        rintro a w₁ ⟨ms, h⟩
        refine Ends.bind (ends_modify ((hserve k _).mono ?_))
        rintro _ w' ⟨ms', h'⟩
        have hexchanged : Passage [] ms w
            { w₁ with client := (b.answer k a w₁.client.1, w₁.history) } := h.change w.client.1 _
        exact ⟨_, hexchanged.trans h'⟩

/-- A dispatch returns if the callbacks do. -/
theorem completes_exchange_dispatch (hcall : ∀ k signal w, completes (call k signal) w = true)
    (event : KeyEvent) (w : World κ (ω × List (Sighting κ))) :
    completes (exchange call (.dispatch event)) w = true := by
  have hannounce : ∀ press observers w, completes (announce call press observers) w = true := by
    intro press observers
    induction observers with
    | nil => exact fun _ => rfl
    | cons o observers ih =>
      exact fun w => completes_get_bind (completes_bind (hcall _ _ w) fun _ => ih)
  have hdispatch : ∀ w, completes (dispatch call event) w = true := by
    intro w
    refine completes_get_bind (completes_bind rfl fun _ w₁ => ?_)
    dsimp only
    cases w.keys.actionFor? (KeyPress.ofEvent event) with
    | none => exact completes_bind (hannounce _ _ w₁) fun _ _ => rfl
    | some k =>
      exact completes_bind (hcall _ _ w₁) fun _ w₂ =>
        completes_bind (hannounce _ _ w₂) fun _ _ => rfl
  refine completes_bind rfl fun _ w₁ => ?_
  exact completes_bind (completes_bind (hdispatch w₁) fun _ _ => rfl) fun _ _ => rfl

end Control

namespace World

/-- What has been asked for between requests is all that has become of the registry. -/
theorem Watched.formed {b : Behaviour κ ω} {interval : Duration}
    {w : World κ (ω × List (Sighting κ))} (hw : w.Watched b interval) : w.keys.Formed := by
  induction hw with
  | start client => exact .empty
  | run _ budget r a hrun ih =>
    obtain ⟨ms, h⟩ :=
      Control.quiet_exchange (Control.passage_callWatched b budget).1 r _ a _ hrun
    exact h.formed ih
  | meanwhile _ client ih => exact ih

/-- Whatever callbacks do meanwhile, a key event is delivered to those who were there when its
dispatch began: to the action for it, if there is one, before anything else comes to pass, and
then to every key observer, in the order in which they were named and each of them once. Those
who come meanwhile have other names. The default is prevented if and only if somebody asks for
it in this dispatch and not in one within it, and the account of a dispatch around it stays as
it was. A dispatch returns if the callbacks do. -/
theorem dispatch_serves_snapshot (b : Behaviour κ ω) (budget : Nat) (event : KeyEvent)
    (w : World κ (ω × List (Sighting κ))) (hkeys : w.keys.Formed) :
    let press := KeyPress.ofEvent event
    let action := w.keys.actionFor? press
    ((∀ k signal u, completes (Control.callWatched b budget k signal) u = true) →
      completes (Control.runWatched b budget (.dispatch event)) w = true) ∧
    ∀ a w', Control.runWatched b budget (.dispatch event) w = .ok a w' →
      ∃ d ms, a = .dispatched d ∧
        w'.moments = w.moments ++ .asked (.dispatch event) :: ms ++
          [.answered (.dispatch event) (.dispatched d)] ∧
        (Moment.own 0 ms).filterMap Moment.hearing? =
          (action.toList.map fun k => ⟨k, none, press⟩) ++
            w.keys.observers.map (fun o => ⟨o.2, some o.1, press⟩) ∧
        (∀ k, action = some k → ms.head? = some (.called k (.shortcut press false))) ∧
        (w.keys.observers.map (·.1.index)).Pairwise (· < ·) ∧
        (∀ k id, .answered (.observeKeys k) (.keyObserver id) ∈ ms →
          ∀ o ∈ w.keys.observers, o.1 ≠ id) ∧
        d.fired = action.isSome ∧
        (d.prevented = true ↔ .asked .preventDefault ∈ Moment.own 0 ms) ∧
        w'.prevented = w.prevented ∧ w'.keys.Formed := by
  intro press action
  refine ⟨fun hcall => Control.completes_exchange_dispatch hcall event w, fun a w' hrun => ?_⟩
  obtain ⟨d, ms, ha, hmoments, hd, hprevented, hformed, -⟩ :=
    Control.ends_exchange_dispatch (Control.passage_callWatched b budget).1 event w a w' hrun
  have hascending := hkeys.ascending
  refine ⟨d, ms, ha, hmoments, hd.heard, hd.first, hascending.order, ?_, hd.fired, ?_, hprevented,
    hformed hkeys⟩
  · intro k id hmem o ho hid
    have hissued := hascending.issued o ho
    rw [hid] at hissued
    exact absurd (hd.fresh k id hmem) (Nat.not_lt.2 hissued)
  · rw [hd.prevented]
    exact Moment.any_prevents_iff

/-- The key goes up again. -/
def commandKUp : KeyEvent := { commandK with isDown := false }

/-- When the action is called, it clears the registry, adds an observer, and has the key go up.
The new observer asks the platform to leave that alone. -/
def upheaval : Behaviour Nat Nat where
  enter _ _ n := n
  request k n :=
    match k, n with
    | 1, 0 => some (.clearKeys, 1)
    | 1, 1 => some (.observeKeys 4, 2)
    | 1, 2 => some (.dispatch commandKUp, 3)
    | 4, 3 => some (.preventDefault, 4)
    | _, _ => none
  answer _ _ n := n
  leave _ n := n

/-- An action and two observers. -/
def settledKeys : ShortcutRegistry Nat :=
  ((ShortcutRegistry.empty.after (.bind (ChordSpelling.input "K" .command).chord 1)).after
    (.observeKeys 2)).after (.observeKeys 3)

theorem formed_settledKeys : settledKeys.Formed := .after (.after (.after .empty _) _) _

def settled : World Nat (Nat × List (Sighting Nat)) :=
  { World.new .zero (0, []) with keys := settledKeys }

def unsettled : World Nat (Nat × List (Sighting Nat)) :=
  final (Control.runWatched upheaval 8 (.dispatch commandK)) settled

/-- The action and both observers are called, though they are gone by then, and the one who has
come instead prevents nothing but the default of its own event. -/
theorem unsettled_serves_snapshot : ∃ ms,
    unsettled.moments = .asked (.dispatch commandK) :: ms ++
      [.answered (.dispatch commandK) (.dispatched ⟨true, false⟩)] ∧
    (Moment.own 0 ms).filterMap Moment.hearing? = [⟨1, none, .ofEvent commandK⟩,
      ⟨2, some ⟨1⟩, .ofEvent commandK⟩, ⟨3, some ⟨2⟩, .ofEvent commandK⟩] ∧
    .answered (.dispatch commandKUp) (.dispatched ⟨false, true⟩) ∈ ms ∧
    unsettled.keys.observers = [(⟨3⟩, 4)] := by
  have hrun : Control.runWatched upheaval 8 (.dispatch commandK) settled =
      .ok (.dispatched ⟨true, false⟩) unsettled := by cbv
  have hstart : settled.moments = [] := rfl
  obtain ⟨d, ms, ha, hmoments, hheard, -⟩ :=
    (dispatch_serves_snapshot upheaval 8 commandK settled formed_settledKeys).2 _ _ hrun
  cases ha
  have hnested : .answered (.dispatch commandKUp) (.dispatched ⟨false, true⟩) ∈
      unsettled.moments := by
    have hat : unsettled.moments[11]? =
        some (.answered (.dispatch commandKUp) (.dispatched ⟨false, true⟩)) := by cbv
    exact List.mem_of_getElem? hat
  rw [hstart] at hmoments
  refine ⟨ms, hmoments, hheard.trans ?_, ?_, by cbv⟩
  · cbv
  · rw [hmoments] at hnested
    simpa using hnested

end World

end ViewHost
