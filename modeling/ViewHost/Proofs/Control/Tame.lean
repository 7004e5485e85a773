import ViewHost.Control.Basic

/-!
# Tame worlds

Not every token is called on every occasion: one that is nowhere but with a frame
observer is called by ticks alone. Given which tokens are tame, a world is tame if
the others are with frame observers only. Every step of the scheduler and of the
registry leaves a world tame that brings in no other tokens.
-/

namespace ViewHost

variable {κ ω : Type} {tame : κ → Prop}

/-- The listeners of a scheduler are tame. -/
structure FrameScheduler.Tame (tame : κ → Prop) (s : FrameScheduler κ) : Prop where
  onClock : ∀ k, s.onClock = some k → tame k
  onPause : ∀ (id : ObserverId) (o : FrameObserver κ) (k : κ), s.observers[id]? = some o →
    o.onPause = some k → tame k

/-- The actions and observers of a registry are tame. -/
structure ShortcutRegistry.Tame (tame : κ → Prop) (r : ShortcutRegistry κ) : Prop where
  bindings : ∀ b ∈ r.bindings, tame b.2.action
  observers : ∀ o ∈ r.observers, tame o.2

/-- All tokens are tame but those with frame observers. -/
structure World.Tame (tame : κ → Prop) (w : World κ ω) : Prop where
  frames : w.frames.Tame tame
  keys : w.keys.Tame tame

namespace FrameScheduler

variable {s : FrameScheduler κ} {id : ObserverId} {k : κ}

theorem getElem?_insert (s : FrameScheduler κ) (id id' : ObserverId) (o : FrameObserver κ) :
    (s.observers.insert id o)[id']? = if id = id' then some o else s.observers[id']? := by
  simp [Std.ExtTreeMap.getElem?_insert, Std.LawfulEqCmp.compare_eq_iff_eq]

theorem delivered_modify (s : FrameScheduler κ) (id : ObserverId)
    (f : FrameObserver κ → FrameObserver κ) : (s.modify id f).delivered = s.delivered := by
  rw [modify]
  split <;> rfl

theorem delivered_refresh (s : FrameScheduler κ) : s.refresh.2.delivered = s.delivered := by
  rw [refresh]
  split <;> rfl

theorem delivered_remove (s : FrameScheduler κ) (id : ObserverId) :
    (s.remove id).2.delivered = s.delivered := by
  rw [remove]
  split <;> rfl

theorem delivered_takeCallback? {s' : FrameScheduler κ} (hk : s.takeCallback? id = some (k, s')) :
    s'.delivered = s.delivered := by
  simp only [takeCallback?, Option.bind_eq_bind, Option.bind_eq_some_iff] at hk
  obtain ⟨o, -, k', -, hk⟩ := hk
  split at hk
  · cases hk
  · cases hk
    exact delivered_modify ..

theorem pulse_eq_accepted {now : Timestamp} {tick : FrameTick} {s' : FrameScheduler κ}
    (hs' : s.pulse now = .accepted tick s') : tick.timestamp = now ∧
      s' = { s with lastTick := some now, resumed := false, delivered := s.delivered + 1 } := by
  have accepted : ∀ delta, s.accept now delta = .accepted tick s' → tick.timestamp = now ∧
      s' = { s with lastTick := some now, resumed := false, delivered := s.delivered + 1 } := by
    intro delta h
    cases h
    exact ⟨rfl, rfl⟩
  rw [pulse] at hs'
  split at hs'
  · cases hs'
  · split at hs'
    · exact accepted _ hs'
    · split at hs'
      · cases hs'
      · split at hs'
        · cases hs'
        · exact accepted _ hs'

namespace Tame

theorem new (interval : Duration) : (FrameScheduler.new interval : FrameScheduler κ).Tame tame :=
  ⟨nofun, fun id o k ho _ => by simp [FrameScheduler.new] at ho⟩

theorem modify (h : s.Tame tame) {f : FrameObserver κ → FrameObserver κ}
    (hf : ∀ o k, (f o).onPause = some k → o.onPause = some k ∨ tame k) :
    (s.modify id f).Tame tame := by
  rw [FrameScheduler.modify]
  split
  · next o ho =>
    refine ⟨h.onClock, fun id' o' k ho' hk => ?_⟩
    rw [getElem?_insert] at ho'
    split at ho'
    · cases ho'
      exact (hf o k hk).elim (h.onPause id o k ho) fun hk => hk
    · exact h.onPause id' o' k ho' hk
  · exact h

theorem refresh (h : s.Tame tame) : s.refresh.2.Tame tame := by
  rw [FrameScheduler.refresh]
  split
  · exact h
  · exact ⟨h.onClock, h.onPause⟩

theorem add (h : s.Tame tame) (k : κ) : (s.add k).2.Tame tame := by
  refine ⟨h.onClock, fun id' o k' ho hk' => ?_⟩
  rw [FrameScheduler.add, getElem?_insert] at ho
  split at ho
  · cases ho
    cases hk'
  · exact h.onPause id' o k' ho hk'

theorem remove (h : s.Tame tame) (id : ObserverId) : (s.remove id).2.Tame tame := by
  rw [FrameScheduler.remove]
  split
  · refine ⟨h.onClock, fun id' o k ho hk => ?_⟩
    rw [Std.ExtTreeMap.getElem?_erase] at ho
    split at ho
    · cases ho
    · exact h.onPause id' o k ho hk
  · exact h

theorem clear (h : s.Tame tame) : s.clear.Tame tame := by
  refine ⟨h.onClock, fun id o k ho _ => ?_⟩
  simp [FrameScheduler.clear] at ho

theorem takeCallback? {s' : FrameScheduler κ} (h : s.Tame tame)
    (hk : s.takeCallback? id = some (k, s')) : s'.Tame tame := by
  simp only [FrameScheduler.takeCallback?, Option.bind_eq_bind, Option.bind_eq_some_iff] at hk
  obtain ⟨o, -, k', -, hk⟩ := hk
  split at hk
  · cases hk
  · cases hk
    exact h.modify fun _ _ => .inl

theorem restore (h : s.Tame tame) (id : ObserverId) (k : κ) : (s.restore id k).Tame tame :=
  h.modify fun _ _ => .inl

theorem accepted {now : Timestamp} {tick : FrameTick} {s' : FrameScheduler κ} (h : s.Tame tame)
    (hs' : s.pulse now = .accepted tick s') : s'.Tame tame := by
  rw [(pulse_eq_accepted hs').2]
  exact ⟨h.onClock, h.onPause⟩

end Tame

end FrameScheduler

namespace ShortcutRegistry.Tame

variable {r : ShortcutRegistry κ} {k : κ}

theorem empty : (ShortcutRegistry.empty : ShortcutRegistry κ).Tame tame := ⟨nofun, nofun⟩

theorem unbind (h : r.Tame tame) (c : Chord) : (r.unbind c).2.Tame tame :=
  ⟨fun b hb => h.bindings b (List.mem_filter.1 hb).1, h.observers⟩

theorem bind (h : r.Tame tame) (c : Chord) (hk : tame k) : (r.bind c k).2.Tame tame := by
  refine ⟨fun b hb => ?_, h.observers⟩
  rcases List.mem_cons.1 hb with rfl | hb
  · exact hk
  · exact (h.unbind c).bindings b hb

theorem addObserver (h : r.Tame tame) (hk : tame k) : (r.addObserver k).2.Tame tame := by
  refine ⟨h.bindings, fun o ho => ?_⟩
  rcases List.mem_append.1 ho with ho | ho
  · exact h.observers o ho
  · rwa [List.mem_singleton.1 ho]

theorem removeObserver (h : r.Tame tame) (id : KeyObserverId) : (r.removeObserver id).2.Tame tame :=
  ⟨h.bindings, fun o ho => h.observers o (List.mem_filter.1 ho).1⟩

theorem clear : r.clear.Tame tame := ⟨nofun, nofun⟩

theorem of_lookup (h : r.Tame tame) {c : Chord} {b : Binding κ}
    (hb : r.bindings.lookup c = some b) : tame b.action := by
  obtain ⟨_, _, hbindings, -⟩ := List.lookup_eq_some_iff.1 hb
  exact h.bindings (c, b) (by simp [hbindings])

theorem of_actionFor? (h : r.Tame tame) {p : KeyPress} (hk : r.actionFor? p = some k) : tame k := by
  rw [actionFor?] at hk
  split at hk
  · obtain ⟨b, hb, rfl⟩ := Option.map_eq_some_iff.1 hk
    rcases Binding.later?_eq_some hb with hb | hb <;> exact h.of_lookup hb
  · cases hk

end ShortcutRegistry.Tame

/-- The tokens that a request puts anywhere but with a frame observer are tame. -/
def Request.Tame (tame : κ → Prop) : Request κ → Prop
  | .onPause _ k | .onClock k | .bind _ k | .observeKeys k => tame k
  | _ => True

end ViewHost
