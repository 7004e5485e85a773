import ViewHost.Proofs.Tree.Reachable
import ViewHost.Tree.Path

/-!
# Paths

A path leads from a root down to a view, and it is found on the way up. In a tree
without cycles the way up passes no node twice, so a path names no view twice. The
views on it are in the tree, and they stay there until one of them is destroyed.
-/

namespace ViewHost.Tree

variable {α : Type} {t t' : Tree α} {h k p stop : Handle} {ks : List Handle}

/-- The handles that are passed on a way up that arrives. -/
inductive WayUp (t : Tree α) (stop : Handle) : Handle → List Handle → Prop where
  | here : WayUp t stop stop []
  | step {h p : Handle} {ks : List Handle} (hne : h ≠ stop) (hp : t.IsParent p h)
      (hrest : WayUp t stop p ks) : WayUp t stop h (h :: ks)

namespace WayUp

theorem eq_or_transGen (hway : t.WayUp stop h ks) (hk : k ∈ ks) :
    k = h ∨ Relation.TransGen t.IsParent k h := by
  induction hway with
  | here => cases hk
  | step _ hp _ ih =>
    rcases List.mem_cons.1 hk with rfl | hk
    · exact .inl rfl
    · rcases ih hk with rfl | habove
      · exact .inr (.single hp)
      · exact .inr (.tail habove hp)

theorem nodup (hway : t.WayUp stop h ks) (acyclic : ∀ h, ¬ Relation.TransGen t.IsParent h h) :
    ks.Nodup := by
  induction hway with
  | here => exact .nil
  | step _ hp hrest ih =>
    refine List.nodup_cons.2 ⟨?_, ih⟩
    intro hmem
    rcases hrest.eq_or_transGen hmem with rfl | habove
    · exact acyclic _ (.single hp)
    · exact acyclic _ (.tail habove hp)

theorem stop_notMem (hway : t.WayUp stop h ks) : stop ∉ ks := by
  induction hway with
  | here => exact List.not_mem_nil
  | step hne _ _ ih =>
    rw [List.mem_cons, not_or]
    exact ⟨hne.symm, ih⟩

theorem mem_nodes (hway : t.WayUp stop h ks) (hk : k ∈ ks) : k ∈ t.nodes := by
  induction hway with
  | here => cases hk
  | step _ hp _ ih =>
    rcases List.mem_cons.1 hk with rfl | hk
    · exact mem_nodes_of_isParent hp
    · exact ih hk

end WayUp

/-- A climb that arrives has passed the nodes of a way up. -/
theorem wayUp_of_climb {steps : Nat} {way : Ascent α} (hway : t.climb stop steps h = .ok way)
    (harrived : way.arrived = true) :
    ∃ ks, t.WayUp stop h ks ∧ way.passed.map (·.view.tag) = ks.map t.tagOf := by
  induction steps generalizing h way with
  | zero =>
    rw [climb] at hway
    split at hway
    · next hs =>
      cases hway
      exact ⟨[], hs ▸ .here, rfl⟩
    · cases hway
  | succ steps ih =>
    rw [climb] at hway
    split at hway
    · next hs =>
      cases hway
      exact ⟨[], hs ▸ .here, rfl⟩
    next hs =>
    cases hn : t.nodes[h]? with
    | none => simp [node, hn, bind, Except.bind] at hway
    | some n =>
      simp only [node_eq_ok hn, ok_bind] at hway
      cases hp : n.parent with
      | none =>
        rw [hp] at hway
        cases hway
        cases harrived
      | some p =>
        rw [hp] at hway
        cases hrest : t.climb stop steps p with
        | error f => simp [hrest, bind, Except.bind] at hway
        | ok rest =>
          simp only [hrest, ok_bind] at hway
          cases hway
          obtain ⟨ks, hks, hpassed⟩ := ih hrest harrived
          refine ⟨h :: ks, .step hs ((parentOf?_of_node hn).trans hp) hks, ?_⟩
          rw [List.map_cons, List.map_cons, hpassed, tagOf_of_node hn]

namespace WellFormed

theorem contains_iff (wf : t.WellFormed) {tag : Tag} :
    t.contains tag = true ↔ ∃ h ∈ t.nodes, t.tagOf h = tag := by
  rw [contains, Std.ExtTreeMap.contains_eq_isSome_getElem?, Option.isSome_iff_exists]
  exact exists_congr fun h => wf.handle?_eq_some_iff

theorem tagOf_inj (wf : t.WellFormed) (hh : h ∈ t.nodes) (hk : k ∈ t.nodes)
    (htag : t.tagOf h = t.tagOf k) : h = k :=
  Option.some.inj ((wf.handle?_tagOf hh).symm.trans (htag ▸ wf.handle?_tagOf hk))

end WellFormed

/-- A path is a way up, the other way round. -/
theorem WellFormed.exists_handles (wf : t.WellFormed) {root tag : Tag} {path : List Tag}
    (hpath : t.path? root tag = some path) :
    ∃ ks : List Handle, (∀ k ∈ ks, k ∈ t.nodes) ∧ ks.Nodup ∧ path = (ks.map t.tagOf).reverse := by
  rw [path?, ascent] at hpath
  cases hr : t.handle? root with
  | none => simp [hr] at hpath
  | some r =>
    cases hh : t.handle? tag with
    | none => simp [hr, hh] at hpath
    | some h =>
      obtain ⟨way, hway, -⟩ := wf.climb_eq_ok r (wf.mem_nodes_of_handle? hh)
      simp only [hr, hh, hway, intact_ok] at hpath
      split at hpath
      · next harrived =>
        obtain ⟨ks, hks, hpassed⟩ := wayUp_of_climb hway harrived
        obtain ⟨hlive, htag⟩ := wf.handle?_eq_some_iff.1 hr
        refine ⟨ks ++ [r], ?_, ?_, ?_⟩
        · intro k hk
          rcases List.mem_append.1 hk with hk | hk
          · exact hks.mem_nodes hk
          · exact List.mem_singleton.1 hk ▸ hlive
        · refine (hks.nodup wf.acyclic).append (List.nodup_singleton r) ?_
          exact List.disjoint_singleton.2 hks.stop_notMem
        · rw [← Option.some.inj hpath, hpassed, List.map_append, List.reverse_append, ← htag]
          rfl
      · cases hpath

/-- A path names views of the tree, none of them twice. -/
theorem WellFormed.path?_distinct (wf : t.WellFormed) {root tag : Tag} {path : List Tag}
    (hpath : t.path? root tag = some path) : path.Nodup ∧ ∀ x ∈ path, t.contains x = true := by
  obtain ⟨ks, hlive, hnodup, rfl⟩ := wf.exists_handles hpath
  constructor
  · rw [List.nodup_reverse]
    exact hnodup.map_on fun h hh k hk htag => wf.tagOf_inj (hlive h hh) (hlive k hk) htag
  · intro x hx
    rw [List.mem_reverse, List.mem_map] at hx
    obtain ⟨k, hk, htag⟩ := hx
    exact wf.contains_iff.2 ⟨k, hlive k hk, htag⟩

/-! ## Views that stay -/

theorem WellFormed.handles_insert (wf : t.WellFormed) {tag parent : Tag} {index : Nat}
    (ht' : t.insert tag parent index = .ok t') : t'.handles = t.handles := by
  obtain ⟨_, _, _, _, _, m, _⟩ := wf.exists_moved ht'
  exact m.handles_eq

theorem WellFormed.handles_detach (wf : t.WellFormed) (tag : Tag) :
    (t.detach tag).2.handles = t.handles := by
  rw [Tree.detach]
  split
  · next h hh =>
    obtain ⟨t', ht', hsevered⟩ := wf.unlink_eq_ok (wf.mem_nodes_of_handle? hh)
    rw [ht']
    exact Edited.handles hsevered
  · rfl

theorem WellFormed.handles_setZ (wf : t.WellFormed) (tag : Tag) (z : Int) :
    (t.setZ tag z).2.handles = t.handles := by
  cases hh : t.handle? tag with
  | none => rw [Tree.setZ, hh]
  | some h =>
    obtain ⟨t', ht', hlifted⟩ := wf.setZ_eq hh z
    rw [ht']
    exact Edited.handles hlifted

theorem handles_update (t : Tree α) (tag : Tag) (f : View α → View α) :
    (t.update tag f).2.handles = t.handles := by
  rw [Tree.update]
  split
  · next h hh =>
    rw [node]
    cases t.nodes[h]? <;> rfl
  · rfl

theorem not_contains_sweep {todo : List Handle} {x : Tag} (hx : t.contains x = false) :
    (t.sweep todo).2.contains x = false := by
  induction t, todo using sweep_induction with
  | done t => rwa [sweep_nil]
  | gone t h rest hh ih =>
    rw [sweep_of_none hh]
    exact ih hx
  | found t h n rest hn ih =>
    rw [sweep_of_node hn]
    apply ih
    rw [contains, without, Std.ExtTreeMap.contains_erase, Bool.and_eq_false_iff]
    exact .inr hx

theorem WellFormed.not_contains_remove (wf : t.WellFormed) (tag : Tag) {x : Tag}
    (hx : t.contains x = false) : (t.remove tag).2.contains x = false := by
  rw [Tree.remove]
  split
  · next h hh =>
    obtain ⟨t', ht', hsevered⟩ := wf.unlink_eq_ok (wf.mem_nodes_of_handle? hh)
    rw [ht']
    apply not_contains_sweep
    show t'.handles.contains x = false
    rwa [Edited.handles hsevered]
  · exact hx

section Commands

variable [Scalar α] {c : Command α} {x : Tag}

/-- A command that neither creates nor destroys leaves the tag table as it is. -/
theorem WellFormed.handles_apply (wf : t.WellFormed) (hcreate : ∀ tag kind, c ≠ .create tag kind)
    (hremove : ∀ tag, c ≠ .remove tag) (ht' : t.apply c = .ok t') : t'.handles = t.handles := by
  cases hc : c.setting? with
  | some f =>
    rw [apply_of_setting hc] at ht'
    exact Except.ok.inj ht' ▸ handles_update t c.subject f
  | none =>
    cases c with
    | create tag kind => exact (hcreate tag kind rfl).elim
    | insert tag parent index => exact wf.handles_insert ht'
    | remove tag => exact (hremove tag rfl).elim
    | detach tag => exact Except.ok.inj ht' ▸ wf.handles_detach tag
    | setZ tag z => exact Except.ok.inj ht' ▸ wf.handles_setZ tag z
    | _ => cases hc

theorem contains_create {tag : Tag} {kind : ViewKind} (ht' : t.create tag kind = .ok t') :
    t'.contains x = (compare tag x == .eq || t.contains x) := by
  rw [Tree.create] at ht'
  split at ht'
  · cases ht'
  · cases ht'
    exact Std.ExtTreeMap.contains_insert

/-- A command that destroys nothing keeps every view. -/
theorem WellFormed.contains_apply (wf : t.WellFormed) (hc : ∀ tag, c ≠ .remove tag)
    (ht' : t.apply c = .ok t') (hx : t.contains x = true) : t'.contains x = true := by
  by_cases hcreate : ∃ tag kind, c = .create tag kind
  · obtain ⟨tag, kind, rfl⟩ := hcreate
    rw [contains_create ht', hx, Bool.or_true]
  · simp only [not_exists] at hcreate
    rwa [contains, wf.handles_apply hcreate hc ht']

/-- Only the command that creates a view brings it into the tree. -/
theorem WellFormed.not_contains_after (wf : t.WellFormed) (hc : ∀ kind, c ≠ .create x kind)
    (hx : t.contains x = false) : (t.after c).contains x = false := by
  rw [Tree.after]
  split
  · next t' ht' =>
    by_cases hcreate : ∃ tag kind, c = .create tag kind
    · obtain ⟨tag, kind, rfl⟩ := hcreate
      have hne : tag ≠ x := fun heq => hc kind (heq ▸ rfl)
      rw [contains_create ht', hx, Bool.or_false, beq_eq_false_iff_ne]
      exact fun heq => hne (Std.LawfulEqOrd.eq_of_compare heq)
    · by_cases hremove : ∃ tag, c = .remove tag
      · obtain ⟨tag, rfl⟩ := hremove
        exact Except.ok.inj ht' ▸ wf.not_contains_remove tag hx
      · simp only [not_exists] at hcreate hremove
        rwa [contains, wf.handles_apply hcreate hremove ht']
  · exact hx

end Commands

end ViewHost.Tree
