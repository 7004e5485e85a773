import Mathlib.Data.List.Nodup
import ViewHost.Proofs.Control.Log
import ViewHost.Proofs.Frame.Steps

/-!
# The roster

Who is registered with a scheduler, in which order, with which callback, and who is
paused: all this can be read off the requests that have been made of it, and a roster is
what such a reading comes to. It knows of no ticks and of no callbacks that are away
while they run.

A scheduler follows the roster of its log at all times, except that the callbacks of the
observers that are being called are away. Between requests none is.
-/

namespace ViewHost

open Run

variable {κ ω : Type}

/-- An observer, as it is known from the requests. -/
structure Enrolled (κ : Type) where
  id : ObserverId
  callback : κ
  paused : Bool

structure Roster (κ : Type) where
  /-- In the order in which they came. -/
  observers : List (Enrolled κ)
  issued : Nat

namespace Roster

def empty : Roster κ := ⟨[], 0⟩

/-- The roster after a request. -/
def after (r : Roster κ) : Request κ → Roster κ
  | .register k => ⟨r.observers ++ [⟨⟨r.issued + 1⟩, k, false⟩], r.issued + 1⟩
  | .unregister id => { r with observers := r.observers.filter (·.id ≠ id) }
  | .setPaused id paused =>
    { r with observers := r.observers.map fun o =>
        if o.id = id then { o with paused := paused } else o }
  | .clearFrames => { r with observers := [] }
  | _ => r

/-- The roster after all that is in a log. -/
def read (log : List (Occurrence κ)) : Roster κ :=
  log.foldl (fun r e => match e with
    | .asked request => r.after request
    | .called .. => r) empty

def ids (r : Roster κ) : List ObserverId := r.observers.map (·.id)

/-- The observers that want ticks. -/
def due (r : Roster κ) : List ObserverId := (r.observers.filter (!·.paused)).map (·.id)

def IsAwake (r : Roster κ) (id : ObserverId) : Prop :=
  ∃ o ∈ r.observers, o.id = id ∧ o.paused = false

/-- Whoever was there before the names up to `r.issued` were issued has its callback
still. -/
structure Persists (r r' : Roster κ) : Prop where
  issued : r.issued ≤ r'.issued
  callback : ∀ o' ∈ r'.observers, o'.id.index ≤ r.issued →
    ∃ o ∈ r.observers, o.id = o'.id ∧ o.callback = o'.callback

@[simp] theorem read_asked (log : List (Occurrence κ)) (request : Request κ) :
    read (log ++ [.asked request]) = (read log).after request := by
  simp [read]

@[simp] theorem read_called (log : List (Occurrence κ)) (k : κ) (signal : Signal) :
    read (log ++ [.called k signal]) = read log := by
  simp [read]

theorem Persists.refl (r : Roster κ) : Persists r r :=
  ⟨Nat.le_refl _, fun o ho _ => ⟨o, ho, rfl, rfl⟩⟩

theorem Persists.trans {r r' r'' : Roster κ} (h : Persists r r') (h' : Persists r' r'') :
    Persists r r'' := by
  refine ⟨Nat.le_trans h.issued h'.issued, ?_⟩
  intro o'' ho'' hle
  obtain ⟨o', ho', hid', hk'⟩ := h'.callback o'' ho'' (Nat.le_trans hle h.issued)
  obtain ⟨o, ho, hid, hk⟩ := h.callback o' ho' (hid' ▸ hle)
  exact ⟨o, ho, hid.trans hid', hk.trans hk'⟩

theorem persists_after (r : Roster κ) (request : Request κ) : Persists r (r.after request) := by
  cases request with
  | register k =>
    refine ⟨Nat.le_succ _, ?_⟩
    intro o' ho' hle
    rcases List.mem_append.1 ho' with ho' | ho'
    · exact ⟨o', ho', rfl, rfl⟩
    · rw [List.mem_singleton.1 ho'] at hle
      exact absurd hle (Nat.not_succ_le_self _)
  | unregister id =>
    refine ⟨Nat.le_refl _, ?_⟩
    intro o' ho' _
    exact ⟨o', (List.mem_filter.1 ho').1, rfl, rfl⟩
  | setPaused id paused =>
    refine ⟨Nat.le_refl _, ?_⟩
    intro o' ho' _
    obtain ⟨o, ho, rfl⟩ := List.mem_map.1 ho'
    refine ⟨o, ho, ?_⟩
    split <;> exact ⟨rfl, rfl⟩
  | clearFrames =>
    refine ⟨Nat.le_refl _, ?_⟩
    intro o' ho' _
    cases ho'
  | _ => exact .refl r

end Roster

/-- A scheduler is as its roster says, with the callbacks of the observers that are
`away` taken out. -/
structure FrameScheduler.Follows (s : FrameScheduler κ) (r : Roster κ) (away : List ObserverId) :
    Prop where
  issued : s.issued = r.issued
  order : s.order = r.ids
  nodup : s.order.Nodup
  old : ∀ id, id ∈ s.order ∨ id ∈ away → id.index ≤ s.issued
  listed : ∀ id, id ∈ s.observers → id ∈ s.order
  known : ∀ o ∈ r.observers, ∃ onPause, s.observers[o.id]? =
    some ⟨if o.id ∈ away then none else some o.callback, o.paused, onPause⟩

namespace FrameScheduler.Follows

variable {s s' : FrameScheduler κ} {r : Roster κ} {away : List ObserverId}
variable {id : ObserverId} {k : κ}

theorem new (interval : Duration) :
    (FrameScheduler.new interval : FrameScheduler κ).Follows .empty [] where
  issued := rfl
  order := rfl
  nodup := .nil
  old id hid := by simp [FrameScheduler.new] at hid
  listed id hid := by simp [FrameScheduler.new] at hid
  known o ho := nomatch ho

/-- Nothing but what a scheduler has of its observers matters. -/
theorem congr (h : s.Follows r away) (hissued : s'.issued = s.issued) (horder : s'.order = s.order)
    (hobservers : s'.observers = s.observers) : s'.Follows r away where
  issued := hissued.trans h.issued
  order := horder.trans h.order
  nodup := horder ▸ h.nodup
  old := by
    rw [hissued, horder]
    exact h.old
  listed := by
    rw [hobservers, horder]
    exact h.listed
  known := by
    rw [hobservers]
    exact h.known

theorem id_mem_order (h : s.Follows r away) {o : Enrolled κ} (ho : o ∈ r.observers) :
    o.id ∈ s.order := by
  rw [h.order]
  exact List.mem_map_of_mem ho

theorem eq_of_id_eq (h : s.Follows r away) {o o' : Enrolled κ} (ho : o ∈ r.observers)
    (ho' : o' ∈ r.observers) (hid : o.id = o'.id) : o = o' := by
  have hnodup := h.nodup
  rw [h.order] at hnodup
  exact List.inj_on_of_nodup_map hnodup ho ho' hid

theorem mem_order_iff (h : s.Follows r away) : id ∈ s.order ↔ id ∈ s.observers := by
  constructor
  · intro hid
    rw [h.order] at hid
    obtain ⟨o, ho, rfl⟩ := List.mem_map.1 hid
    obtain ⟨onPause, hrecord⟩ := h.known o ho
    rw [Std.ExtTreeMap.mem_iff_isSome_getElem?, hrecord]
    rfl
  · exact h.listed id

/-- The roster entry of an observer. -/
theorem exists_enrolled (h : s.Follows r away) {o : FrameObserver κ}
    (ho : s.observers[id]? = some o) : ∃ e ∈ r.observers, e.id = id ∧ o.paused = e.paused ∧
      o.callback = if id ∈ away then none else some e.callback := by
  have hid : id ∈ s.observers := by
    rw [Std.ExtTreeMap.mem_iff_isSome_getElem?, ho]
    rfl
  have hlisted := h.listed id hid
  rw [h.order] at hlisted
  obtain ⟨e, he, rfl⟩ := List.mem_map.1 hlisted
  obtain ⟨onPause, hrecord⟩ := h.known e he
  rw [ho] at hrecord
  cases hrecord
  exact ⟨e, he, rfl, rfl, rfl⟩

theorem isAwake_eq (h : s.Follows r away) {o : Enrolled κ} (ho : o ∈ r.observers) :
    s.isAwake o.id = !o.paused := by
  obtain ⟨onPause, hrecord⟩ := h.known o ho
  simp [isAwake, isPaused?, hrecord]

theorem isAwake_iff (h : s.Follows r away) (id : ObserverId) :
    s.isAwake id = true ↔ r.IsAwake id := by
  constructor
  · intro hawake
    obtain ⟨o, ho, hpaused⟩ := (FrameScheduler.isAwake_iff s id).1 hawake
    obtain ⟨e, he, hid, hpaused', -⟩ := h.exists_enrolled ho
    exact ⟨e, he, hid, hpaused'.symm.trans hpaused⟩
  · rintro ⟨e, he, rfl, hpaused⟩
    rw [h.isAwake_eq he, hpaused]
    rfl

/-- A tick is for those who are due by the roster. -/
theorem due_eq (h : s.Follows r away) : s.due = r.due := by
  rw [FrameScheduler.due, h.order, Roster.ids, List.filter_map, Roster.due]
  congr 1
  apply List.filter_congr
  intro o ho
  exact h.isAwake_eq ho

theorem nodup_due (h : s.Follows r away) : r.due.Nodup := by
  rw [← h.due_eq]
  exact h.nodup.filter _

/-! ## Steps -/

theorem add (h : s.Follows r away) (k : κ) : (s.add k).2.Follows (r.after (.register k)) away := by
  have hnew : (⟨s.issued + 1⟩ : ObserverId) = ⟨r.issued + 1⟩ := by rw [h.issued]
  have hfresh : ∀ id : ObserverId, id.index ≤ s.issued → (⟨s.issued + 1⟩ : ObserverId) ≠ id := by
    rintro id hle rfl
    exact absurd hle (Nat.not_succ_le_self _)
  refine ⟨congrArg (· + 1) h.issued, ?_, ?_, ?_, ?_, ?_⟩
  · simp [FrameScheduler.add, Roster.after, Roster.ids, h.order, h.issued]
  · refine List.nodup_append.2 ⟨h.nodup, List.pairwise_singleton _ _, ?_⟩
    intro id hid id' hid' heq
    rw [List.mem_singleton.1 hid'] at heq
    exact hfresh id (h.old id (.inl hid)) heq.symm
  · rintro id (hid | hid)
    · rcases List.mem_append.1 hid with hid | hid
      · exact Nat.le_succ_of_le (h.old id (.inl hid))
      · rw [List.mem_singleton.1 hid]
        exact Nat.le_refl _
    · exact Nat.le_succ_of_le (h.old id (.inr hid))
  · intro id hid
    rw [Std.ExtTreeMap.mem_iff_isSome_getElem?, getElem?_add] at hid
    split at hid
    · next heq => exact List.mem_append_right _ (List.mem_singleton.2 heq.symm)
    · exact List.mem_append_left _ (h.listed id (Std.ExtTreeMap.mem_iff_isSome_getElem?.2 hid))
  · intro o ho
    rw [getElem?_add]
    rcases List.mem_append.1 ho with ho | ho
    · rw [if_neg (hfresh o.id (h.old o.id (.inl (h.id_mem_order ho))))]
      exact h.known o ho
    · rw [List.mem_singleton.1 ho, if_pos hnew]
      have haway : (⟨r.issued + 1⟩ : ObserverId) ∉ away := fun hmem =>
        hfresh _ (h.old _ (.inr hmem)) hnew
      exact ⟨none, by rw [if_neg haway]⟩

theorem remove (h : s.Follows r away) (id : ObserverId) :
    (s.remove id).2.Follows (r.after (.unregister id)) away := by
  have horder := order_remove s id fun id' hid' => h.mem_order_iff.1 hid'
  refine ⟨?_, ?_, ?_, ?_, ?_, ?_⟩
  · rw [issued_remove]
    exact h.issued
  · rw [horder, h.order]
    simp only [Roster.after, Roster.ids, List.filter_map]
    rfl
  · rw [horder]
    exact h.nodup.filter _
  · intro id' hid'
    rw [issued_remove]
    rw [horder] at hid'
    exact h.old id' (hid'.imp_left fun hmem => (List.mem_filter.1 hmem).1)
  · intro id' hid'
    rw [Std.ExtTreeMap.mem_iff_isSome_getElem?, getElem?_remove] at hid'
    split at hid'
    · cases hid'
    · next hne =>
      rw [horder]
      exact List.mem_filter.2 ⟨h.listed id' (Std.ExtTreeMap.mem_iff_isSome_getElem?.2 hid'),
        decide_eq_true (Ne.symm hne)⟩
  · intro o ho
    obtain ⟨ho, hne⟩ := List.mem_filter.1 ho
    rw [getElem?_remove, if_neg (Ne.symm (of_decide_eq_true hne))]
    exact h.known o ho

/-- A change of one observer. -/
theorem modify (h : s.Follows r away) (id : ObserverId) (away' : List ObserverId)
    {f : FrameObserver κ → FrameObserver κ} {g : Enrolled κ → Enrolled κ}
    (hid : ∀ e, (g e).id = e.id)
    (haway : ∀ id' ∈ away', id' ∈ away ∨ id' = id ∧ id ∈ s.order)
    (hself : ∀ e ∈ r.observers, e.id = id → ∀ onPause, ∃ onPause',
      f ⟨if id ∈ away then none else some e.callback, e.paused, onPause⟩ =
        ⟨if id ∈ away' then none else some (g e).callback, (g e).paused, onPause'⟩)
    (hother : ∀ e ∈ r.observers, e.id ≠ id → g e = e ∧ (e.id ∈ away' ↔ e.id ∈ away)) :
    (s.modify id f).Follows ⟨r.observers.map g, r.issued⟩ away' := by
  refine ⟨?_, ?_, ?_, ?_, ?_, ?_⟩
  · rw [issued_modify]
    exact h.issued
  · rw [order_modify, h.order, Roster.ids, Roster.ids, List.map_map]
    exact List.map_congr_left fun e _ => (hid e).symm
  · rw [order_modify]
    exact h.nodup
  · rintro id' (hid' | hid')
    · rw [order_modify] at hid'
      rw [issued_modify]
      exact h.old id' (.inl hid')
    · rw [issued_modify]
      rcases haway id' hid' with hmem | ⟨rfl, hmem⟩
      · exact h.old id' (.inr hmem)
      · exact h.old id' (.inl hmem)
  · intro id' hid'
    rw [order_modify]
    rw [Std.ExtTreeMap.mem_iff_isSome_getElem?, getElem?_modify] at hid'
    split at hid'
    · next heq =>
      rw [Option.isSome_map, heq] at hid'
      exact h.listed id' (Std.ExtTreeMap.mem_iff_isSome_getElem?.2 hid')
    · exact h.listed id' (Std.ExtTreeMap.mem_iff_isSome_getElem?.2 hid')
  · intro e' he'
    obtain ⟨e, he, rfl⟩ := List.mem_map.1 he'
    obtain ⟨onPause, hrecord⟩ := h.known e he
    rw [getElem?_modify, hid]
    by_cases heq : e.id = id
    · obtain ⟨onPause', hf⟩ := hself e he heq onPause
      rw [if_pos heq.symm, ← heq, hrecord, Option.map_some]
      rw [← heq] at hf
      exact ⟨onPause', congrArg some hf⟩
    · obtain ⟨hg, hiff⟩ := hother e he heq
      rw [if_neg (Ne.symm heq), hrecord, hg]
      exact ⟨onPause, by simp only [hiff]⟩

theorem setPaused (h : s.Follows r away) (id : ObserverId) (paused : Bool) :
    (s.modify id fun o => { o with paused := paused }).Follows (r.after (.setPaused id paused))
      away := by
  refine h.modify id away (fun e => ?_) (fun id' hid' => .inl hid') ?_ ?_
  · split <;> rfl
  · intro e _ heq onPause
    exact ⟨onPause, by rw [if_pos heq]⟩
  · intro e _ hne
    exact ⟨if_neg hne, Iff.rfl⟩

theorem onPause (h : s.Follows r away) (id : ObserverId) (k : κ) :
    (s.modify id fun o => { o with onPause := some k }).Follows r away := by
  have hsame := h.modify id away (f := fun o => { o with onPause := some k }) (g := fun e => e)
    (fun _ => rfl) (fun id' hid' => .inl hid') (fun e _ _ _ => ⟨some k, rfl⟩)
    (fun e _ _ => ⟨rfl, Iff.rfl⟩)
  rwa [List.map_id'] at hsame

theorem clear (h : s.Follows r away) : s.clear.Follows (r.after .clearFrames) away where
  issued := h.issued
  order := rfl
  nodup := .nil
  old := by
    rintro id (hid | hid)
    · cases hid
    · exact h.old id (.inr hid)
  listed id hid := by simp [FrameScheduler.clear] at hid
  known o ho := nomatch ho

/-- The observer whose turn it is. Its callback is away until it is restored. -/
theorem take (h : s.Follows r away) (htake : s.takeCallback? id = some (k, s')) :
    s'.Follows r (id :: away) ∧ id ∉ away ∧ ⟨id, k, false⟩ ∈ r.observers := by
  obtain ⟨o, ho, hk, hpaused, rfl⟩ := takeCallback?_eq_some_iff.1 htake
  obtain ⟨e, he, rfl, hpaused', hcallback⟩ := h.exists_enrolled ho
  have haway : e.id ∉ away := by
    intro hmem
    rw [if_pos hmem, hk] at hcallback
    cases hcallback
  rw [if_neg haway, hk, Option.some.injEq] at hcallback
  refine ⟨?_, haway, ?_⟩
  · have hsame := h.modify e.id (e.id :: away) (f := fun o => { o with callback := none })
      (g := fun e => e) (fun _ => rfl) ?_ ?_ ?_
    · rwa [List.map_id'] at hsame
    · intro id' hid'
      rcases List.mem_cons.1 hid' with rfl | hid'
      · exact .inr ⟨rfl, h.id_mem_order he⟩
      · exact .inl hid'
    · intro e' _ _ onPause
      exact ⟨onPause, by rw [if_pos List.mem_cons_self]⟩
    · intro e' _ hne
      exact ⟨rfl, by simp [hne]⟩
  · have hentry : e = ⟨e.id, k, false⟩ := by
      obtain ⟨id, callback, paused⟩ := e
      simp_all
    exact hentry ▸ he

/-- The call is over. Meanwhile the observer may be gone, but if it is there its callback
is the one that was called. -/
theorem restore (h : s.Follows r (id :: away)) (haway : id ∉ away)
    (hk : ∀ e ∈ r.observers, e.id = id → e.callback = k) : (s.restore id k).Follows r away := by
  have hsame := h.modify id away (f := fun o => { o with callback := o.callback <|> some k })
    (g := fun e => e) (fun _ => rfl) ?_ ?_ ?_
  · rwa [List.map_id'] at hsame
  · intro id' hid'
    exact .inl (List.mem_cons_of_mem _ hid')
  · intro e he heq onPause
    exact ⟨onPause, by rw [if_pos List.mem_cons_self, if_neg haway, hk e he heq]; rfl⟩
  · intro e _ hne
    exact ⟨rfl, by simp [hne]⟩

theorem accepted (h : s.Follows r away) {now : Timestamp} {tick : FrameTick}
    (hp : s.pulse now = .accepted tick s') : s'.Follows r away := by
  rw [(pulse_eq_accepted hp).2]
  exact h.congr rfl rfl rfl

theorem refresh (h : s.Follows r away) : s.refresh.2.Follows r away :=
  h.congr (issued_refresh s) (order_refresh s) (observers_refresh s)

end FrameScheduler.Follows

namespace World

variable {w w' w₁ w₂ : World κ (ω × List (Occurrence κ))} {r : Request κ}

/-- The roster of what has been asked for so far. -/
def roster (w : World κ (ω × List (Occurrence κ))) : Roster κ := Roster.read w.log

/-- The scheduler goes on following the roster, and who stays keeps its callback. -/
structure Attends (w w' : World κ (ω × List (Occurrence κ))) : Prop where
  follows : ∀ away, w.frames.Follows w.roster away → w'.frames.Follows w'.roster away
  persists : Roster.Persists w.roster w'.roster

theorem Attends.of_eq (hframes : w'.frames = w.frames) (hroster : w'.roster = w.roster) :
    Attends w w' := by
  constructor
  · intro away h
    rw [hframes, hroster]
    exact h
  · rw [hroster]
    exact .refl _

theorem Attends.trans (h : Attends w w₁) (h' : Attends w₁ w₂) : Attends w w₂ :=
  ⟨fun away hw => h'.follows away (h.follows away hw), h.persists.trans h'.persists⟩

theorem roster_justAsked (h : JustAsked r w w') : w'.roster = w.roster.after r := by
  rw [roster, h.log_eq, Roster.read_asked]
  rfl

/-- Only what the scheduler does at once changes the roster. -/
theorem Attends.commit (h : JustAsked r w w') : Attends w (w'.commit r) := by
  have hroster : (w'.commit r).roster = w.roster.after r := by
    rw [roster, log_commit]
    exact roster_justAsked h
  constructor
  · intro away hw
    rw [hroster]
    rw [← h.frames_eq] at hw
    cases r with
    | register k => exact hw.add k
    | unregister id => exact hw.remove id
    | setPaused id paused => exact hw.setPaused id paused
    | onPause id k => exact hw.onPause id k
    | onClock k => exact hw.congr rfl rfl rfl
    | tick now =>
      rw [World.commit]
      split
      · next hp => exact hw.accepted hp
      · exact hw
    | clearFrames => exact hw.clear
    | _ => exact hw
  · rw [hroster]
    exact Roster.persists_after ..

/-- A request that is left at that is for what the roster says already. -/
theorem Attends.ignored (h : JustAsked r w w') (hheeds : w'.heeds r = false) : Attends w w' := by
  refine ⟨?_, roster_justAsked h ▸ Roster.persists_after ..⟩
  intro away hw
  have hcommit := (Attends.commit h).follows away hw
  have hroster : (w'.commit r).roster = w'.roster := by rw [roster, log_commit, roster]
  rw [hroster] at hcommit
  cases r with
  | unregister id =>
    have hgone := FrameScheduler.remove_eq_self hheeds
    simpa only [World.commit, hgone] using hcommit
  | setPaused id paused =>
    have hsame : (w'.frames.modify id fun o => { o with paused := paused }) = w'.frames := by
      apply FrameScheduler.modify_eq_self
      intro o ho
      have hpaused : o.paused = paused := by
        simpa [heeds, FrameScheduler.isPaused?, ho] using hheeds
      rw [← hpaused]
    simpa only [World.commit, hsame] using hcommit
  | tick now =>
    rw [World.commit] at hcommit
    split at hcommit
    · next hp => simp [heeds, hp] at hheeds
    · exact hcommit
  | _ => cases hheeds

/-- An observer has its turn. Its callback is put back unless the observer is gone. -/
theorem Attends.turn {b : Behaviour κ ω} {id : ObserverId} {k : κ} {frames : FrameScheduler κ}
    (tick : FrameTick) (htake : w₁.frames.takeCallback? id = some (k, frames))
    (hR : Attends (World.enter { w₁ with frames := frames } b.logged k (.tick id tick)) w₂) :
    Attends w₁ { w₂ with frames := w₂.frames.restore id k } := by
  have hroster : (World.enter { w₁ with frames := frames } b.logged k (.tick id tick)).roster =
      w₁.roster := Roster.read_called ..
  have hpersists := hR.persists
  rw [hroster] at hpersists
  refine ⟨?_, hpersists⟩
  intro away hw₁
  obtain ⟨htaken, haway, hentry⟩ := hw₁.take htake
  have hw₂ := hR.follows (id :: away) (hroster ▸ htaken)
  refine hw₂.restore haway ?_
  intro e he hid
  have hold : e.id.index ≤ w₁.roster.issued := by
    rw [hid, ← hw₁.issued]
    exact hw₁.old id (.inl (hw₁.id_mem_order hentry))
  obtain ⟨e', he', hid', hk'⟩ := hpersists.callback e he hold
  rw [← hk', hw₁.eq_of_id_eq he' hentry (hid'.trans hid)]

theorem upkeep_attends (b : Behaviour κ ω) :
    Upkeep b.logged JustAsked (fun _ => Attends) Attends where
  refl w := .of_eq rfl rfl
  trans := .trans
  request hr := justAsked_of_request hr
  answer k a w := .of_eq rfl rfl
  leave k w := .of_eq rfl rfl
  ignored := .ignored
  commit h _ := .commit h
  during := .trans
  pause o k hmid _ _ := hmid.trans (.of_eq rfl (Roster.read_called ..))
  refresh {r w w₁} hmid _ _ := hmid.trans ⟨fun _ h => h.refresh, .refl _⟩
  clock {r w w₁} running k hmid _ _ _ := by
    have hrefresh : Attends w₁ { w₁ with frames := w₁.frames.refresh.2 } :=
      ⟨fun _ h => h.refresh, .refl _⟩
    exact (hmid.trans hrefresh).trans (.of_eq rfl (Roster.read_called ..))
  turn tick hmid htake hR := hmid.trans (.turn tick htake hR)
  shortcut k press hmid := hmid.trans (.of_eq rfl (Roster.read_called ..))
  key id k press prevented hmid := hmid.trans (.of_eq rfl (Roster.read_called ..))
  prevented p hmid := hmid.trans (.of_eq rfl rfl)
  done hmid _ := hmid

/-- Between requests no callback is away. -/
theorem Reached.follows {b : Behaviour κ ω} {interval : Duration} (hw : w.Reached b interval) :
    w.frames.Follows w.roster [] := by
  induction hw with
  | start client => exact .new interval
  | call _ budget r a hrun ih =>
    have hattends := Control.ends_run (upkeep_attends b) budget (justAsked_ask _ r) a _ hrun
    exact hattends.follows [] ih
  | meanwhile _ client ih => exact ih

end World

end ViewHost
