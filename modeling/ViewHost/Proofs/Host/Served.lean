import ViewHost.Proofs.Host.Journal

/-!
# Input first, callbacks after

An operation of a host first takes note of its input, if it has any, and then wakes
up the observer that moves items on, or does what it is asked with the scheduler and
the registry. That is when callbacks run, and all they leave behind is another world:
the line of reports as it was, or after a tick all of it in the queue.
-/

namespace ViewHost.Host

open Run

variable {α κ ω β γ : Type}

/-- The host's own callback is with frame observers only. -/
def Tame (h : Host α κ ω) : Prop := h.world.Tame HostCallback.Tame

/-- `h'` is `h` after callbacks have run. -/
structure Served (h h' : Host α κ ω) : Prop where
  eq_with_world : h' = { h with world := h'.world }
  outside : Outside h.world h'.world

/-- An operation that only has callbacks run. -/
abbrev Serves (m : Act α κ ω β) : Prop := Keeps Tame Served m

/-- At `h`, an operation first takes note of something, and then only has callbacks
run. -/
def NotesAt (next : Journal α → Journal α) (m : Act α κ ω β) (h : Host α κ ω) : Prop :=
  h.Tame → ∃ h₁, Noted next h h₁ ∧ (final m h).Tame ∧ Served h₁ (final m h)

variable {m : Act α κ ω β} {f : β → Act α κ ω γ} {next next' : Journal α → Journal α}
variable {h h₁ : Host α κ ω}

theorem lasting : Lasting (Served (α := α) (κ := κ) (ω := ω)) where
  refl h := ⟨rfl, regime.outer.refl _⟩
  trans {h h' h''} hs hs' := by
    refine ⟨?_, hs.outside.trans hs'.outside⟩
    rw [hs'.eq_with_world, hs.eq_with_world]

theorem tame_new [Scalar α] (root : Tag) (config : HostConfig α) (client : ω) :
    (Host.new root config client : Host α κ ω).Tame := by
  let frames : FrameScheduler (HostCallback κ) :=
    ((FrameScheduler.new config.frameInterval).add .flush).2
  have hframes : (frames.modify ⟨1⟩ fun o => { o with paused := true }).Tame HostCallback.Tame :=
    ((FrameScheduler.Tame.new _).add _).modify fun _ _ => .inl
  exact ⟨hframes, .empty⟩

theorem Served.journal_eq {h' : Host α κ ω} (hs : Served h h')
    (hquiet : h'.shared.touches.quiet = h.shared.touches.quiet)
    (hreports : h'.shared.reports = h.shared.reports) (taken : List (Outbound α)) :
    h'.journal taken = h.journal taken :=
  journal_congr (by rw [hs.eq_with_world]) (by rw [hs.eq_with_world]) (by rw [hs.eq_with_world])
    (by rw [hs.eq_with_world]) hquiet hreports taken

theorem serves_pure (b : β) : Serves (pure b : Act α κ ω β) :=
  fun _ hh => lasting.keepsAt_pure hh b

theorem Noted.tame (hn : Noted next h h₁) (hh : h.Tame) : h₁.Tame :=
  ⟨hn.frames ▸ hh.frames, hn.keys ▸ hh.keys⟩

/-! ## Notes -/

namespace NotesAt

theorem of_serves (hm : Serves m) : NotesAt id m h :=
  fun hh => ⟨h, .refl h, hm h hh⟩

theorem congr (hm : NotesAt next m h)
    (hnext : ∀ taken, next (h.journal taken) = next' (h.journal taken)) : NotesAt next' m h := by
  intro hh
  obtain ⟨h₁, hnoted, hrest⟩ := hm hh
  exact ⟨h₁, { hnoted with journal := fun taken => (hnoted.journal taken).trans (hnext taken) },
    hrest⟩

theorem get_bind {f : Host α κ ω → Act α κ ω β} (hf : NotesAt next (f h) h) :
    NotesAt next (get >>= f) h := hf

/-- Callbacks after an operation. -/
theorem bind (hm : NotesAt next m h) (hf : ∀ b, Serves (f b)) : NotesAt next (m >>= f) h := by
  intro hh
  obtain ⟨h₁, hnoted, hserved⟩ := hm hh
  refine ⟨h₁, hnoted, ?_⟩
  cases hmh : m h with
  | ok b h' =>
    rw [final_of_ok hmh] at hserved
    rw [final_bind_of_ok hmh]
    obtain ⟨htame, hserved'⟩ := hf b h' hserved.1
    exact ⟨htame, lasting.trans hserved.2 hserved'⟩
  | error e h' =>
    rw [final_of_error hmh] at hserved
    rw [final_bind_of_error hmh]
    exact hserved

/-- Taking note before an operation. -/
theorem modify_bind {g : Host α κ ω → Host α κ ω} {m : Act α κ ω β} (hg : Noted next h (g h))
    (hm : NotesAt next' m (g h)) : NotesAt (next' ∘ next) (modify g >>= fun _ => m) h := by
  intro hh
  obtain ⟨h₁, hnoted, hrest⟩ := hm (hg.tame hh)
  exact ⟨h₁, hg.trans hnoted, hrest⟩

/-- An operation that comes to having callbacks run in another host. -/
theorem of_eq {m' : Act α κ ω β} (hn : Noted next h h₁) (hm' : Serves m') (heq : m h = m' h₁) :
    NotesAt next m h := by
  intro hh
  have hfinal : final m h = final m' h₁ := by rw [final, heq, final]
  rw [hfinal]
  exact ⟨h₁, hn, hm' h₁ (hn.tame hh)⟩

theorem of_modify {g : Host α κ ω → Host α κ ω} (hg : Noted next h (g h)) :
    NotesAt next (modify g : Act α κ ω Unit) h :=
  of_eq hg (serves_pure ()) rfl

end NotesAt

/-! ## Callbacks -/

section

variable (b : Behaviour κ ω) (budget : Nat)

/-- Callbacks leave another world, and that is all. -/
theorem final_control
    (m : Caller (HostCallback κ) (Shared α ω) → Control (HostCallback κ) (Shared α ω) β)
    (h : Host α κ ω) : final (Act.control b budget m) h =
      { h with world := final (m (Control.call (behaviour b h.flush) budget)) h.world } := by
  cases hm : m (Control.call (behaviour b h.flush) budget) h.world with
  | ok a w =>
    rw [final_of_ok hm]
    exact final_of_ok (by rw [Act.control, hm])
  | error e w =>
    rw [final_of_error hm]
    exact final_of_error (by rw [Act.control, hm])

theorem serves_control
    {m : Caller (HostCallback κ) (Shared α ω) → Control (HostCallback κ) (Shared α ω) β}
    (hm : ∀ h : Host α κ ω, Control.Keeps HostCallback.Tame Outside
      (m (Control.call (behaviour b h.flush) budget))) : Serves (Act.control b budget m) := by
  intro h hh
  obtain ⟨htame, houtside⟩ := hm h h.world hh
  rw [KeepsAt, final_control]
  exact ⟨htame, rfl, houtside⟩

/-- How callbacks may be called at all. -/
theorem keeps_calls (h : Host α κ ω) :
    let call := Control.call (behaviour (α := α) b h.flush) budget
    (∀ k signal, HostCallback.Tame k → Control.Keeps HostCallback.Tame Outside (call k signal)) ∧
      ∀ k id tick, Control.Keeps HostCallback.Tame Inside (call k (.tick id tick)) :=
  have h := Control.keeps_call regime (obeys_behaviour b h.flush) budget
  ⟨h.1, h.2.1⟩

theorem serves_setFlushPaused (paused : Bool) :
    Serves (setFlushPaused b budget paused : Act α κ ω Unit) := by
  intro h hh
  refine keepsAt_get_bind (lasting.keepsAt_bind (serves_control b budget (fun h => ?_) h hh) ?_)
  · exact Control.keeps_setPaused regime.outer (keeps_calls b budget h).1 _ _
  · exact fun _ h hh => lasting.keepsAt_pure hh ()

theorem serves_wakeFlush : Serves (wakeFlush b budget : Act α κ ω Unit) := by
  intro h hh
  refine keepsAt_get_bind ?_
  split
  · exact serves_setFlushPaused b budget false h hh
  · exact lasting.keepsAt_pure hh ()

/-- The end of a tick: the host's own observer is put to sleep if nothing is left. -/
theorem serves_settle (tick : Option FrameTick) : Serves (do
    if !(← get).shared.hasPending then setFlushPaused b budget true
    return tick : Act α κ ω _) := by
  intro h hh
  refine keepsAt_get_bind ?_
  split
  · exact lasting.keepsAt_bind (serves_setFlushPaused b budget true h hh) fun _ h hh =>
      lasting.keepsAt_pure hh tick
  · exact lasting.keepsAt_pure hh tick

theorem serves_tick (now : Timestamp) : Serves (Host.tick b budget now : Act α κ ω _) := by
  refine lasting.keeps_bind (serves_control b budget fun h => ?_) (serves_settle b budget)
  exact Control.keeps_tick regime.outer regime.inner (keeps_calls b budget h).2 regime.ticked now

theorem serves_handleKey (e : KeyEvent) : Serves (handleKey b budget e : Act α κ ω _) :=
  serves_control b budget fun h => Control.keeps_dispatch regime.outer (keeps_calls b budget h).1 e

theorem serves_request (r : Request κ) : Serves (request b budget r : Act α κ ω _) := by
  intro h hh
  refine keepsAt_get_bind (serves_control b budget (fun h => ?_) h hh)
  have hcalls := keeps_calls b budget h
  exact Control.keeps_perform regime hcalls.1 hcalls.2 (HostCallback.tame_map_client _)

theorem serves_clearFrames : Serves (Act.control b budget Control.clearFrames : Act α κ ω Unit) :=
  serves_control b budget fun h => Control.keeps_clearFrames regime.outer (keeps_calls b budget h).1

end

/-! ## Input -/

section

variable (b : Behaviour κ ω) (budget : Nat)

theorem notesAt_hoverTo (h : Host α κ ω) (at_ : Timestamp)
    (result : List HoverChange × HoverTracker) :
    NotesAt (·.hoverTo at_ result) (hoverTo b budget at_ result) h := by
  by_cases hquiet : result.1.isEmpty && result.2.cursor h.tree = h.cursor
  · refine .of_eq (noted_hover_of_quiet h at_ hquiet) (serves_pure ()) ?_
    unfold hoverTo queueHover
    exact congrFun (if_pos hquiet) _
  · refine .of_eq (noted_hover h at_ hquiet) (serves_wakeFlush b budget) ?_
    unfold hoverTo queueHover
    exact congrFun (if_neg hquiet) _

/-- An operation of the tracker. -/
theorem notesAt_track {step : TouchTracker α → TouchTracker α}
    (hstep : TouchTracker.Oblivious step) {f : Shared α ω → Shared α ω}
    (houtbox : (f h.shared).outbox = h.shared.outbox)
    (houtbound : (f h.shared).outbound = h.shared.outbound)
    (htouches : (f h.shared).touches = step h.shared.touches) :
    NotesAt (fun j => j.track (step j.touches)) (Act.modifyShared f) h :=
  .of_modify (noted_track hstep h houtbox houtbound htouches)

/-- An operation of the tracker and one of the hover tracker. -/
theorem notesAt_track_hoverTo {step : TouchTracker α → TouchTracker α}
    (hstep : TouchTracker.Oblivious step) {f : Shared α ω → Shared α ω}
    (houtbox : (f h.shared).outbox = h.shared.outbox)
    (houtbound : (f h.shared).outbound = h.shared.outbound)
    (htouches : (f h.shared).touches = step h.shared.touches) (at_ : Timestamp)
    (result : List HoverChange × HoverTracker) :
    NotesAt (fun j => (j.track (step j.touches)).hoverTo at_ result)
      (do Act.modifyShared f; hoverTo b budget at_ result) h :=
  .modify_bind (noted_track hstep h houtbox houtbound htouches)
    (notesAt_hoverTo b budget _ at_ result)

variable [Scalar α]

theorem notesAt_routePointer (h : Host α κ ω) (e : PointerEvent α) :
    NotesAt (·.pointer e) (routePointer b budget e) h := by
  refine .get_bind ?_
  cases haction : e.action with
  | down button =>
    have hstep := TouchTracker.oblivious_down h.tree e.id e.kind e.position e.timestamp
    refine (notesAt_track hstep rfl rfl rfl).congr fun taken => ?_
    rw [Journal.pointer, haction]
    rfl
  | move =>
    dsimp only
    split
    · next hdown =>
      have hstep := TouchTracker.oblivious_move h.tree e.id e.position e.timestamp
      refine (notesAt_track hstep rfl rfl rfl).congr fun taken => ?_
      rw [Journal.pointer, haction]
      exact (if_pos hdown).symm
    · next hup =>
      split
      · next hhover =>
        refine (notesAt_hoverTo b budget h _ _).congr fun taken => ?_
        rw [Journal.pointer, haction]
        exact ((if_neg hup).trans (if_pos hhover)).symm
      · next hidle =>
        refine (NotesAt.of_serves (serves_pure ())).congr fun taken => ?_
        rw [Journal.pointer, haction]
        exact ((if_neg hup).trans (if_neg hidle)).symm
  | up button =>
    have hstep := TouchTracker.oblivious_up h.tree e.id e.position e.timestamp
    refine (notesAt_track hstep rfl rfl rfl).congr fun taken => ?_
    rw [Journal.pointer, haction]
    rfl
  | cancel reason =>
    have hstep := TouchTracker.oblivious_cancel (α := α) reason e.timestamp
    dsimp only
    by_cases hlost : reason = .focusLost || reason = .system
    · rw [if_pos hlost]
      refine (notesAt_track_hoverTo b budget hstep rfl rfl rfl _ _).congr fun taken => ?_
      rw [Journal.pointer, haction]
      exact (if_pos hlost).symm
    · rw [if_neg hlost]
      refine ((notesAt_track hstep rfl rfl rfl).bind fun _ => serves_pure ()).congr fun taken => ?_
      rw [Journal.pointer, haction]
      exact (if_neg hlost).symm

theorem notesAt_handlePointer (h : Host α κ ω) (e : PointerEvent α) :
    NotesAt (·.pointer e) (handlePointer b budget e) h :=
  (notesAt_routePointer b budget h e).bind fun _ => serves_wakeFlush b budget

theorem notesAt_setRoot (h : Host α κ ω) (root : Tag) (at_ : Timestamp) :
    NotesAt (·.after (.setRoot root at_)) (setRoot b budget root at_) h := by
  have hnoted := noted_track (TouchTracker.oblivious_setRoot root) h
    (s := { h.shared with touches := h.shared.touches.setRoot root }) rfl rfl rfl
  have hhover := notesAt_hoverTo b budget
    (h.setShared { h.shared with touches := h.shared.touches.setRoot root }) at_ h.hover.clear
  exact (NotesAt.modify_bind hnoted (.get_bind hhover)).congr fun taken => rfl

end

end ViewHost.Host
