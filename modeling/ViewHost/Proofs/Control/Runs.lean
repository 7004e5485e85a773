import ViewHost.Control.Basic

/-!
# What runs keep

A run may stop short and then leaves the state it has come to. To keep an invariant
and to lead to a state that is related to the first one is asked of it in either
case, so that it holds of a sequence of runs if it holds of each.
-/

namespace ViewHost.Run

variable {σ β γ : Type}

/-- The state that a run leaves, whether it ends or stops short. -/
def final (m : EStateM Halt σ β) (s : σ) : σ :=
  match m s with
  | .ok _ s' => s'
  | .error _ s' => s'

/-- A run from `s` leaves a state with the invariant `I` that is related to `s`. -/
def KeepsAt (I : σ → Prop) (R : σ → σ → Prop) (m : EStateM Halt σ β) (s : σ) : Prop :=
  I (final m s) ∧ R s (final m s)

/-- Runs lead from states with the invariant to such states, related to the first. -/
def Keeps (I : σ → Prop) (R : σ → σ → Prop) (m : EStateM Halt σ β) : Prop :=
  ∀ s, I s → KeepsAt I R m s

/-- A relation that is kept by one run after the other if it is kept by each. -/
structure Lasting (R : σ → σ → Prop) : Prop where
  refl : ∀ s, R s s
  trans : ∀ {s t u}, R s t → R t u → R s u

variable {I : σ → Prop} {R D : σ → σ → Prop} {m : EStateM Halt σ β} {f : β → EStateM Halt σ γ}
variable {s s' : σ}

theorem final_of_ok {b : β} (hm : m s = .ok b s') : final m s = s' := by rw [final, hm]

theorem final_of_error {e : Halt} (hm : m s = .error e s') : final m s = s' := by rw [final, hm]

theorem final_bind_of_ok {b : β} (hm : m s = .ok b s') : final (m >>= f) s = final (f b) s' := by
  simp [final, bind, EStateM.bind, hm]

theorem final_bind_of_error {e : Halt} (hm : m s = .error e s') : final (m >>= f) s = s' := by
  simp [final, bind, EStateM.bind, hm]

theorem keepsAt_get_bind {f : σ → EStateM Halt σ γ} (hf : KeepsAt I R (f s) s) :
    KeepsAt I R (get >>= f) s := hf

theorem Keeps.mono (hm : Keeps I D m) (hDR : ∀ s s', D s s' → R s s') : Keeps I R m :=
  fun s hs => ⟨(hm s hs).1, hDR _ _ (hm s hs).2⟩

namespace Lasting

theorem keepsAt_pure (hR : Lasting R) (hs : I s) (b : β) :
    KeepsAt I R (pure b : EStateM Halt σ β) s := ⟨hs, hR.refl s⟩

theorem keepsAt_bind (hR : Lasting R) (hm : KeepsAt I R m s) (hf : ∀ b, Keeps I R (f b)) :
    KeepsAt I R (m >>= f) s := by
  cases hms : m s with
  | ok b s' =>
    rw [KeepsAt, final_of_ok hms] at hm
    obtain ⟨hinv, hrel⟩ := hf b s' hm.1
    rw [KeepsAt, final_bind_of_ok hms]
    exact ⟨hinv, hR.trans hm.2 hrel⟩
  | error e s' =>
    rw [KeepsAt, final_of_error hms] at hm
    rw [KeepsAt, final_bind_of_error hms]
    exact hm

theorem keeps_bind (hR : Lasting R) (hm : Keeps I R m) (hf : ∀ b, Keeps I R (f b)) :
    Keeps I R (m >>= f) := fun s hs => hR.keepsAt_bind (hm s hs) hf

theorem keeps_map (hR : Lasting R) (hm : Keeps I R m) (g : β → γ) : Keeps I R (g <$> m) := by
  rw [map_eq_pure_bind]
  exact hR.keeps_bind hm fun b s hs => hR.keepsAt_pure hs _

end Lasting

/-! ## Runs that end -/

/-- Whether the run from `s` ends. -/
def completes (m : EStateM Halt σ β) (s : σ) : Bool :=
  match m s with
  | .ok .. => true
  | .error .. => false

theorem exists_eq_ok_of_completes (h : completes m s = true) : ∃ b, m s = .ok b (final m s) := by
  cases hms : m s with
  | ok b s' => exact ⟨b, by rw [final_of_ok hms]⟩
  | error e s' =>
    rw [completes, hms] at h
    cases h

theorem completes_bind (h : completes m s = true) (hf : ∀ b s', completes (f b) s' = true) :
    completes (m >>= f) s = true := by
  obtain ⟨b, hm⟩ := exists_eq_ok_of_completes h
  rw [← hf b (final m s), completes, completes]
  simp only [bind, EStateM.bind, hm]

theorem completes_get_bind {f : σ → EStateM Halt σ γ} (h : completes (f s) s = true) :
    completes (get >>= f) s = true := h

theorem completes_modify_bind {g : σ → σ} {f : PUnit → EStateM Halt σ γ}
    (h : completes (f ⟨⟩) (g s) = true) : completes (modify g >>= f) s = true := h

/-- If the run from `s` ends, it ends with `Q`. Nothing is said of one that stops short. -/
def Ends (m : EStateM Halt σ β) (s : σ) (Q : β → σ → Prop) : Prop :=
  ∀ b s', m s = .ok b s' → Q b s'

variable {Q : β → σ → Prop} {Q' : γ → σ → Prop}

theorem ends_pure {b : β} (h : Q b s) : Ends (pure b) s Q := by
  intro b' s' hrun
  cases hrun
  exact h

theorem ends_throw (e : Halt) : Ends (throw e : EStateM Halt σ β) s Q := by
  intro b s' hrun
  cases hrun

theorem ends_modify {g : σ → σ} {Q : PUnit → σ → Prop} (h : Q ⟨⟩ (g s)) :
    Ends (modify g) s Q := by
  intro b s' hrun
  cases hrun
  exact h

theorem ends_modifyGet {g : σ → β × σ} (h : Q (g s).1 (g s).2) : Ends (modifyGet g) s Q := by
  intro b s' hrun
  cases hrun
  exact h

theorem ends_get_bind {f : σ → EStateM Halt σ γ} (h : Ends (f s) s Q') :
    Ends (get >>= f) s Q' := h

namespace Ends

theorem mono {Q₁ Q₂ : β → σ → Prop} (h : Ends m s Q₁) (himp : ∀ b s', Q₁ b s' → Q₂ b s') :
    Ends m s Q₂ := by
  intro b s' hrun
  exact himp b s' (h b s' hrun)

theorem and {Q₁ Q₂ : β → σ → Prop} (h : Ends m s Q₁) (h' : Ends m s Q₂) :
    Ends m s fun b s' => Q₁ b s' ∧ Q₂ b s' := by
  intro b s' hrun
  exact ⟨h b s' hrun, h' b s' hrun⟩

theorem bind (h : Ends m s fun b s' => Ends (f b) s' Q') : Ends (m >>= f) s Q' := by
  intro c s'' hrun
  cases hms : m s with
  | ok b s' =>
    simp only [Bind.bind, EStateM.bind, hms] at hrun
    exact h b s' hms c s'' hrun
  | error e s' =>
    simp only [Bind.bind, EStateM.bind, hms] at hrun
    cases hrun

theorem map (g : β → γ) (h : Ends m s fun b s' => Q' (g b) s') : Ends (g <$> m) s Q' := by
  rw [map_eq_pure_bind]
  exact bind (h.mono fun b s' hQ => ends_pure hQ)

end Ends

end ViewHost.Run
