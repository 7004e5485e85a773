import ViewHost.Proofs.Host.Apply
import ViewHost.Proofs.Tree.InPlace

/-!
# All or nothing

A command that is refused has changed nothing when it stops, and so a list of commands, which
stops with the first that is refused, leaves what the ones before it have made.
-/

namespace ViewHost

variable {α κ ω : Type} [Scalar α]

namespace Host

variable {h h' h'' : Host α κ ω} {c : Command α} {cs done : List (Command α)}
variable {e : TreeError} {failure? : Option TreeError}

/-! ## Lists of commands -/

/-- Of the commands, `done` are as many as can be carried out one after the other. They lead to
`h'`, and `failure?` is why the next one is refused there. -/
structure StopsAfter (h : Host α κ ω) (cs done : List (Command α)) (failure? : Option TreeError)
    (h' : Host α κ ω) : Prop where
  start : done <+: cs
  run : done.foldlM apply h = .ok h'
  longest : ∀ pre, pre <+: cs → (∃ h₁, pre.foldlM apply h = .ok h₁) → pre <+: done
  failure : ∀ e, failure? = some e ↔ ∃ c more, cs = done ++ c :: more ∧ h'.apply c = .error e
  complete : failure? = none ↔ done = cs

namespace StopsAfter

theorem nil (h : Host α κ ω) : StopsAfter h [] [] none h where
  start := List.prefix_rfl
  run := rfl
  longest _ hpre _ := hpre
  failure := by simp
  complete := by simp

theorem refused (hc : h.apply c = .error e) : StopsAfter h (c :: cs) [] (some e) h where
  start := List.nil_prefix
  run := rfl
  longest pre hpre hrun := by
    cases pre with
    | nil => exact List.prefix_rfl
    | cons d pre =>
      obtain ⟨rfl, -⟩ := List.cons_prefix_cons.1 hpre
      obtain ⟨h₁, hrun⟩ := hrun
      rw [List.foldlM_cons, hc] at hrun
      cases hrun
  failure e' := by simp [hc]
  complete := by simp

theorem cons (hc : h.apply c = .ok h') (hs : StopsAfter h' cs done failure? h'') :
    StopsAfter h (c :: cs) (c :: done) failure? h'' where
  start := List.cons_prefix_cons.2 ⟨rfl, hs.start⟩
  run := by
    rw [List.foldlM_cons, hc]
    exact hs.run
  longest pre hpre hrun := by
    cases pre with
    | nil => exact List.nil_prefix
    | cons d pre =>
      obtain ⟨rfl, hrest⟩ := List.cons_prefix_cons.1 hpre
      rw [List.foldlM_cons, hc] at hrun
      exact List.cons_prefix_cons.2 ⟨rfl, hs.longest pre hrest hrun⟩
  failure e := by simp [hs.failure]
  complete := by simp [hs.complete]

theorem applyAll (h : Host α κ ω) (cs : List (Command α)) :
    ∃ done, StopsAfter h cs done (h.applyAll cs).1 (h.applyAll cs).2 := by
  induction cs generalizing h with
  | nil => exact ⟨[], .nil h⟩
  | cons c cs ih =>
    rw [Host.applyAll]
    cases hc : h.apply c with
    | error e => exact ⟨[], .refused hc⟩
    | ok h' =>
      obtain ⟨done, hs⟩ := ih h'
      exact ⟨c :: done, .cons hc hs⟩

end StopsAfter

theorem applyAll_append (h : Host α κ ω) (cs ds : List (Command α)) :
    h.applyAll (cs ++ ds) = match h.applyAll cs with
      | (none, h') => h'.applyAll ds
      | (some e, h') => (some e, h') := by
  induction cs generalizing h with
  | nil => rfl
  | cons c cs ih =>
    rw [List.cons_append, applyAll, applyAll]
    cases h.apply c with
    | error e => rfl
    | ok h' => exact ih h'

/-! ## In place -/

namespace InPlace

/-- A program on the tree of a host, which keeps what it has written. -/
def onTree (m : EStateM TreeError (Tree α) Unit) : EStateM TreeError (Host α κ ω) Unit := fun h =>
  match m.run h.tree with
  | .ok _ tree => .ok () { h with tree := tree }
  | .error e tree => .error e { h with tree := tree }

/-- A command on a host in place. The hover tracker is looked after once the tree is done. -/
def apply (c : Command α) : EStateM TreeError (Host α κ ω) Unit := do
  onTree (Tree.InPlace.apply c)
  match c with
  | .remove _ => modify fun h => { h with hover := h.hover.retainExisting h.tree }
  | _ => return ()

/-- One command after the other, in place. -/
def applyAll (cs : List (Command α)) : EStateM TreeError (Host α κ ω) Unit := cs.forM apply

theorem run_apply (wf : h.tree.WellFormed) (c : Command α) :
    (apply c).run h = allOrNothing h (h.apply c) := by
  have htree : (onTree (Tree.InPlace.apply c)).run h =
      allOrNothing h ((h.tree.apply c).map fun tree => { h with tree := tree }) := by
    rw [EStateM.run, onTree, Tree.InPlace.run_apply wf]
    cases h.tree.apply c <;> rfl
  unfold apply
  rw [EStateM.run_bind, htree, apply_eq_map]
  cases h.tree.apply c with
  | error e => rfl
  | ok tree => cases c <;> rfl

theorem run_applyAll (wf : h.tree.WellFormed) (cs : List (Command α)) :
    (applyAll cs).run h = match h.applyAll cs with
      | (none, h') => .ok () h'
      | (some e, h') => .error e h' := by
  induction cs generalizing h with
  | nil => rfl
  | cons c cs ih =>
    rw [applyAll, List.forM_eq_forM, List.forM_cons, EStateM.run_bind, run_apply wf, Host.applyAll]
    cases hc : h.apply c with
    | error e => rfl
    | ok h' =>
      obtain ⟨tree, htree, rfl⟩ := exists_of_apply_eq_ok hc
      exact ih (wf.apply htree)

end InPlace

/-- A command changes the tree and, if it destroys views, shortens the path hovered over, and
nothing else: no touch, nothing that is pending, sealed or queued, no frame and no shortcut. If
it is refused, which is for the reasons that a tree has, nothing is changed, although nothing is
taken back. A list of commands comes to what the longest part of it in front comes to that can be
carried out, and fails with what stops it there. So two lists one after the other are one list,
unless the first of them fails. -/
theorem commands_all_or_nothing (h : Host α κ ω) (ht : h.tree.Reachable) :
    (∀ c h', h.apply c = .ok h' →
      (InPlace.apply c).run h = .ok () h' ∧ h.tree.apply c = .ok h'.tree ∧ ViewsOnly h h' ∧
      ((∀ tag, c ≠ .remove tag) → h'.hover = h.hover)) ∧
    (∀ c e, (h.apply c = .error e ↔ h.tree.Refused c e) ∧
      (h.tree.Refused c e → (InPlace.apply c).run h = .error e h)) ∧
    (∀ cs, ViewsOnly h (h.applyAll cs).2 ∧
      (∃ done, StopsAfter h cs done (h.applyAll cs).1 (h.applyAll cs).2) ∧
      (InPlace.applyAll cs).run h = match h.applyAll cs with
        | (none, h') => .ok () h'
        | (some e, h') => .error e h') ∧
    ∀ cs ds, h.applyAll (cs ++ ds) = match h.applyAll cs with
      | (none, h') => h'.applyAll ds
      | (some e, h') => (some e, h') := by
  have wf := ht.wellFormed
  refine ⟨fun c h' hc => ?_, fun c e => ?_, fun cs => ?_, h.applyAll_append⟩
  · have hrun := InPlace.run_apply wf c
    obtain ⟨tree, htree, hnext⟩ := exists_of_apply_eq_ok hc
    refine ⟨by rw [hrun, hc, allOrNothing], ?_, .apply hc, fun hne => ?_⟩
    · rw [htree, hnext]
    · rw [hnext]
      exact hoverAfter_of_ne_remove hne tree
  · have hrefused : h.apply c = .error e ↔ h.tree.Refused c e :=
      apply_eq_error_iff.trans wf.apply_eq_error_iff
    refine ⟨hrefused, fun he => ?_⟩
    rw [InPlace.run_apply wf, hrefused.2 he, allOrNothing]
  · exact ⟨.applyAll h cs, StopsAfter.applyAll h cs, InPlace.run_applyAll wf cs⟩

/-- The fourth command would make a cycle, and the fifth is not looked at. -/
theorem cycle_stops_commands :
    let h : Host Rat Empty Unit := new ⟨1⟩ .default ()
    let cs : List (Command Rat) := [.create ⟨1⟩ .view, .create ⟨2⟩ .view, .insert ⟨2⟩ ⟨1⟩ 0,
      .insert ⟨1⟩ ⟨2⟩ 0, .create ⟨3⟩ .view]
    (h.applyAll cs).1 = some (.cycle ⟨1⟩ ⟨2⟩) ∧ ViewsOnly h (h.applyAll cs).2 ∧
      (∃ done, StopsAfter h cs done (some (.cycle ⟨1⟩ ⟨2⟩)) (h.applyAll cs).2) ∧
      (InPlace.applyAll cs).run h = .error (.cycle ⟨1⟩ ⟨2⟩) (h.applyAll cs).2 := by
  intro h cs
  have hfailure : (h.applyAll cs).1 = some (.cycle ⟨1⟩ ⟨2⟩) := by cbv
  obtain ⟨hviews, hstops, hrun⟩ := (commands_all_or_nothing h .empty).2.2.1 cs
  refine ⟨hfailure, hviews, hfailure ▸ hstops, ?_⟩
  rw [hrun]
  cases hall : h.applyAll cs with
  | mk failure? h' =>
    cases (congrArg Prod.fst hall).symm.trans hfailure
    rfl

end Host

end ViewHost
