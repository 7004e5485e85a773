import ViewHost.Proofs.Control.Tame

/-!
# Steps of the scheduler

What each step of the scheduler leaves of the observers, of their order and of the
names issued so far. The other proofs know the steps by these facts only.
-/

namespace ViewHost.FrameScheduler

variable {κ : Type} {s s' : FrameScheduler κ} {id id' : ObserverId} {k : κ}
variable {f : FrameObserver κ → FrameObserver κ}

theorem getElem?_add (s : FrameScheduler κ) (k : κ) (id : ObserverId) :
    (s.add k).2.observers[id]? =
      if (⟨s.issued + 1⟩ : ObserverId) = id then some ⟨some k, false, none⟩
      else s.observers[id]? := getElem?_insert ..

theorem remove_eq_self (h : s.observers.contains id = false) : s.remove id = (false, s) := by
  simp [remove, h]

theorem getElem?_remove (s : FrameScheduler κ) (id id' : ObserverId) :
    (s.remove id).2.observers[id']? = if id = id' then none else s.observers[id']? := by
  cases hid : s.observers.contains id with
  | true =>
    simp [remove, hid, Std.ExtTreeMap.getElem?_erase, Std.LawfulEqCmp.compare_eq_iff_eq]
  | false =>
    by_cases heq : id = id'
    · subst heq
      have habsent : id ∉ s.observers := by
        rw [← Std.ExtTreeMap.contains_iff_mem, hid]
        exact Bool.false_ne_true
      rw [remove_eq_self hid, if_pos rfl, Std.ExtTreeMap.getElem?_eq_none habsent]
    · rw [remove_eq_self hid, if_neg heq]

theorem getElem?_modify (s : FrameScheduler κ) (id id' : ObserverId)
    (f : FrameObserver κ → FrameObserver κ) :
    (s.modify id f).observers[id']? =
      if id = id' then s.observers[id]?.map f else s.observers[id']? := by
  cases ho : s.observers[id]? with
  | none =>
    by_cases heq : id = id'
    · subst heq
      simp [modify, ho]
    · simp [modify, ho, heq]
  | some o => simp [modify, ho, getElem?_insert]

/-- A change that leaves the observer as it is. -/
theorem modify_eq_self (h : ∀ o, s.observers[id]? = some o → f o = o) : s.modify id f = s := by
  rw [modify]
  split
  · next o ho =>
    have hobservers : s.observers.insert id (f o) = s.observers := by
      apply Std.ExtTreeMap.ext_getElem?
      intro id'
      rw [getElem?_insert, h o ho]
      split
      · next heq => rw [← heq, ho]
      · rfl
    rw [hobservers]
  · rfl

theorem order_remove (s : FrameScheduler κ) (id : ObserverId)
    (h : ∀ id ∈ s.order, id ∈ s.observers) :
    (s.remove id).2.order = s.order.filter (· ≠ id) := by
  cases hid : s.observers.contains id with
  | true => simp [remove, hid]
  | false =>
    have hne : ∀ id' ∈ s.order, decide (id' ≠ id) = true := by
      intro id' hid'
      have hmem := h id' hid'
      rw [decide_eq_true_eq]
      rintro rfl
      rw [← Std.ExtTreeMap.contains_iff_mem, hid] at hmem
      cases hmem
    rw [List.filter_eq_self.2 hne, remove_eq_self hid]

@[simp] theorem issued_remove (s : FrameScheduler κ) (id : ObserverId) :
    (s.remove id).2.issued = s.issued := by
  rw [remove]
  split <;> rfl

@[simp] theorem order_modify (s : FrameScheduler κ) (id : ObserverId)
    (f : FrameObserver κ → FrameObserver κ) : (s.modify id f).order = s.order := by
  rw [modify]
  split <;> rfl

@[simp] theorem issued_modify (s : FrameScheduler κ) (id : ObserverId)
    (f : FrameObserver κ → FrameObserver κ) : (s.modify id f).issued = s.issued := by
  rw [modify]
  split <;> rfl

@[simp] theorem interval_modify (s : FrameScheduler κ) (id : ObserverId)
    (f : FrameObserver κ → FrameObserver κ) : (s.modify id f).interval = s.interval := by
  rw [modify]
  split <;> rfl

@[simp] theorem running_modify (s : FrameScheduler κ) (id : ObserverId)
    (f : FrameObserver κ → FrameObserver κ) : (s.modify id f).running = s.running := by
  rw [modify]
  split <;> rfl

@[simp] theorem lastTick_modify (s : FrameScheduler κ) (id : ObserverId)
    (f : FrameObserver κ → FrameObserver κ) : (s.modify id f).lastTick = s.lastTick := by
  rw [modify]
  split <;> rfl

@[simp] theorem resumed_modify (s : FrameScheduler κ) (id : ObserverId)
    (f : FrameObserver κ → FrameObserver κ) : (s.modify id f).resumed = s.resumed := by
  rw [modify]
  split <;> rfl

@[simp] theorem onClock_modify (s : FrameScheduler κ) (id : ObserverId)
    (f : FrameObserver κ → FrameObserver κ) : (s.modify id f).onClock = s.onClock := by
  rw [modify]
  split <;> rfl

@[simp] theorem observers_refresh (s : FrameScheduler κ) :
    s.refresh.2.observers = s.observers := by
  rw [refresh]
  split <;> rfl

@[simp] theorem order_refresh (s : FrameScheduler κ) : s.refresh.2.order = s.order := by
  rw [refresh]
  split <;> rfl

@[simp] theorem issued_refresh (s : FrameScheduler κ) : s.refresh.2.issued = s.issued := by
  rw [refresh]
  split <;> rfl

theorem isAwake_iff (s : FrameScheduler κ) (id : ObserverId) :
    s.isAwake id = true ↔ ∃ o, s.observers[id]? = some o ∧ o.paused = false := by
  simp [isAwake, isPaused?]

/-- A callback is taken from an observer that is awake and not being called. -/
theorem takeCallback?_eq_some_iff : s.takeCallback? id = some (k, s') ↔
    ∃ o, s.observers[id]? = some o ∧ o.callback = some k ∧ o.paused = false ∧
      s' = s.modify id fun o => { o with callback := none } := by
  constructor
  · intro htake
    simp only [takeCallback?, Option.bind_eq_bind, Option.bind_eq_some_iff] at htake
    obtain ⟨o, ho, k', hk', htake⟩ := htake
    split at htake
    · cases htake
    · next hpaused =>
      cases htake
      exact ⟨o, ho, hk', by simpa using hpaused, rfl⟩
  · rintro ⟨o, ho, hk, hpaused, rfl⟩
    simp [takeCallback?, ho, hk, hpaused]

/-- Where no callback is away, an observer is passed over if it is not awake. -/
theorem takeCallback?_eq_none (h : s.takeCallback? id = none)
    (hin : ∀ o, s.observers[id]? = some o → o.callback.isSome) : s.isAwake id = false := by
  rw [Bool.eq_false_iff]
  intro hawake
  obtain ⟨o, ho, hpaused⟩ := (s.isAwake_iff id).1 hawake
  obtain ⟨k, hk⟩ := Option.isSome_iff_exists.1 (hin o ho)
  have htake := takeCallback?_eq_some_iff.2 ⟨o, ho, hk, hpaused, rfl⟩
  rw [h] at htake
  cases htake

end ViewHost.FrameScheduler
