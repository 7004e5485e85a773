import ViewHost.Proofs.Tree.Removal
import ViewHost.Proofs.Tree.Subtree

/-!
# Changes elsewhere

All views share one store and one tag table, but a command changes no more than the view that it
names, the parent of that view and the one it is put under; a removal also takes what lies below.
A subtree that none of these belong to is left as it was, wherever it is carried along. And if it
is the root of the subtree that is put elsewhere, then only its place changes, which is of no
account to those below it and to a query that starts from it.
-/

namespace ViewHost

variable {α : Type}

theorem Node.AlikeInside.withParent (n : Node α) (p : Option Handle) :
    n.AlikeInside { n with parent := p } := ⟨rfl, rfl, rfl, rfl, rfl, rfl, rfl, rfl⟩

namespace Command

/-- The view that a command puts its subject under. -/
def newParent? : Command α → Option Tag
  | .insert _ parent _ => some parent
  | _ => none

/-- The subject, its old parent and its new parent. -/
def affected (t : Tree α) (c : Command α) : List Tag :=
  c.subject :: ((t.parent? c.subject).toList ++ c.newParent?.toList)

/-- The command gives `root` another parent, or none, or another place or transform under the
parent it has, or another z. -/
inductive Repositions (t : Tree α) (root : Tag) : Command α → Prop where
  | insert (parent : Tag) (index : Nat) : Repositions t root (.insert root parent index)
  | detach : Repositions t root (.detach root)
  | setTransform (transform : Transform α) : Repositions t root (.setTransform root transform)
  | setZ (z : Int) : Repositions t root (.setZ root z)
  | setFrame (frame : Rect α) (hsize : ∀ v, t.view? root = some v → frame.size = v.frame.size) :
      Repositions t root (.setFrame root frame)

end Command

namespace Tree

variable {t t' : Tree α} {r h k p : Handle} {n : Node α} {root tag parent : Tag}

/-! ## Edits -/

/-- A node that is not strictly below `r` has its parent outside the subtree. -/
theorem WellFormed.not_isParent_of_isAncestor (wf : t.WellFormed)
    (hout : t.IsAncestor r h → h = r) (hk : t.IsAncestor r k) : ¬ t.IsParent k h := by
  intro hp
  cases hout (hk.tail hp)
  exact wf.not_isAncestor_of_isParent hp hk

namespace AgreeBelow

theorem refl (hr : r ∈ t.nodes) : AgreeBelow r t t := by
  obtain ⟨n, hn⟩ := mem_nodes_iff.1 hr
  exact ⟨⟨n, n, hn, hn, .refl n⟩, fun _ _ _ => rfl⟩

theorem of_map {f : Handle → Node α → Node α} (hr : r ∈ t.nodes)
    (hnodes : ∀ k, t.IsAncestor r k → t'.nodes[k]? = t.nodes[k]?.map (f k))
    (htop : ∀ n, t.nodes[r]? = some n → n.AlikeInside (f r n))
    (hbelow : ∀ k n, t.IsAncestor r k → k ≠ r → t.nodes[k]? = some n → f k n = n) :
    AgreeBelow r t t' := by
  obtain ⟨n, hn⟩ := mem_nodes_iff.1 hr
  refine ⟨⟨n, f r n, hn, by rw [hnodes r .refl, hn, Option.map_some], htop n hn⟩, ?_⟩
  intro k hk hne
  obtain ⟨m, hm⟩ := mem_nodes_iff.1 (mem_nodes_of_isAncestor hr hk)
  rw [hnodes k hk, hm, Option.map_some, hbelow k m hk hne hm]

variable (hr : r ∈ t.nodes) (hout : t.IsAncestor r h → h = r)

include hr hout

theorem of_severed (wf : t.WellFormed)
    (hnodes : ∀ k, t.IsAncestor r k → t'.nodes[k]? = t.nodes[k]?.map (·.severed h k)) :
    AgreeBelow r t t' := by
  have hsame := fun k n (hk : t.IsAncestor r k) (hn : t.nodes[k]? = some n) =>
    wf.severed_eq hn (wf.not_isParent_of_isAncestor hout hk)
  refine of_map hr hnodes (fun n hn => ?_) fun k n hk hne hn => ?_
  · rw [hsame r n .refl hn]
    exact .withParent n _
  · rw [hsame k n hk hn, if_neg]
    rintro rfl
    exact hne (hout hk)

theorem of_grafted {index : Nat} (hp : ¬ t.IsAncestor r p) (e : Grafted h p index t t') :
    AgreeBelow r t t' := by
  have hne_p : ∀ {k}, t.IsAncestor r k → k ≠ p := fun hk heq => hp (heq ▸ hk)
  refine of_map hr (fun k _ => e.nodes k) (fun n hn => ?_) fun k n hk hne hn => ?_
  · simp only [Node.grafted, if_neg (hne_p .refl)]
    exact .withParent n _
  · have hkh : k ≠ h := by
      rintro rfl
      exact hne (hout hk)
    simp only [Node.grafted, if_neg (hne_p hk), if_neg hkh]

theorem of_lifted {z : Int} (wf : t.WellFormed) (e : Lifted h z t t') : AgreeBelow r t t' := by
  have hpaint : ∀ {k}, t.IsAncestor r k → ¬ t.parentOf? h = some k :=
    wf.not_isParent_of_isAncestor hout
  refine of_map hr (fun k _ => e.nodes k) (fun n hn => ?_) fun k n hk hne hn => ?_
  · simp only [Node.lifted, if_neg (hpaint .refl)]
    split <;> exact ⟨rfl, rfl, rfl, rfl, rfl, rfl, rfl, rfl⟩
  · have hkh : k ≠ h := by
      rintro rfl
      exact hne (hout hk)
    simp only [Node.lifted, if_neg (hpaint hk), if_neg hkh]

theorem of_put (hn : t.nodes[h]? = some n) {g : Node α → Node α}
    (hself : h = r → n.AlikeInside (g n)) : AgreeBelow r t (t.put h (g n)) := by
  refine of_map hr (fun k _ => (edited_put hn g).nodes k) (fun m hm => ?_)
    fun k m hk hne hm => if_neg ?_
  · by_cases hrh : r = h
    · subst hrh
      cases hm.symm.trans hn
      rw [if_pos rfl]
      exact hself rfl
    · rw [if_neg hrh]
      exact .refl m
  · rintro rfl
    exact hne (hout hk)

end AgreeBelow

/-! ## Operations -/

namespace WellFormed

variable (wf : t.WellFormed) (hr : t.handle? root = some r)

include wf hr

theorem eq_of_isAncestor_of_within (hh : t.handle? tag = some h)
    (hout : t.Within root tag → tag = root) (hanc : t.IsAncestor r h) : h = r := by
  cases hout ((wf.within_iff hr hh).2 hanc)
  exact Option.some.inj (hh.symm.trans hr)

/-- A new view has a handle that no view had before. -/
theorem agreeBelow_create [Scalar α] {kind : ViewKind} (ht' : t.create tag kind = .ok t') :
    AgreeBelow r t t' := by
  have hlive := wf.mem_nodes_of_handle? hr
  rw [Tree.create] at ht'
  split at ht'
  · cases ht'
  cases ht'
  refine .of_map (f := fun _ n => n) hlive (fun k hk => ?_) (fun n _ => .refl n)
    fun _ _ _ _ _ => rfl
  have hold := wf.issued k (mem_nodes_of_isAncestor hlive hk)
  have hne : (⟨t.issued⟩ : Handle) ≠ k := by
    rintro rfl
    exact Nat.lt_irrefl _ hold
  rw [Option.map_id']
  exact (nodes_put t _ k _).trans (if_neg hne)

theorem agreeBelow_detach (hout : t.Within root tag → tag = root) :
    AgreeBelow r t (t.detach tag).2 := by
  have hlive := wf.mem_nodes_of_handle? hr
  rw [Tree.detach]
  split
  · next h hh =>
    obtain ⟨t', ht', hsevered⟩ := wf.unlink_eq_ok (wf.mem_nodes_of_handle? hh)
    rw [ht']
    exact .of_severed hlive (wf.eq_of_isAncestor_of_within hr hh hout) wf fun k _ =>
      hsevered.nodes k
  · exact .refl hlive

/-- What is put under another view is taken off its parent first. -/
theorem agreeBelow_insert {index : Nat} (hout : t.Within root tag → tag = root)
    (hparent : t.Within root parent → tag = root) (ht' : t.insert tag parent index = .ok t') :
    AgreeBelow r t t' := by
  have hlive := wf.mem_nodes_of_handle? hr
  obtain ⟨h, p, hh, hp, hnot, m, -⟩ := wf.exists_moved ht'
  obtain ⟨t₁, hsevered, hgrafted⟩ := m.edits
  have hinside : ¬ t.IsAncestor r p := by
    intro hanc
    cases hparent ((wf.within_iff hr hp).2 hanc)
    cases hr.symm.trans hh
    exact hnot hanc
  have hout := wf.eq_of_isAncestor_of_within hr hh hout
  have habove : ∀ {k}, t₁.IsAncestor r k → t.IsAncestor r k := fun hk =>
    hk.lift id fun _ _ hs => (hsevered.isParent_iff.1 hs).1
  have hagree : AgreeBelow r t t₁ := .of_severed hlive hout wf fun k _ => hsevered.nodes k
  exact hagree.trans (.of_grafted ((Edited.mem_nodes_iff hsevered).2 hlive)
    (fun hanc => hout (habove hanc)) (fun hanc => hinside (habove hanc)) hgrafted)

theorem agreeBelow_setZ (hout : t.Within root tag → tag = root) (z : Int) :
    AgreeBelow r t (t.setZ tag z).2 := by
  have hlive := wf.mem_nodes_of_handle? hr
  cases hh : t.handle? tag with
  | none =>
    rw [Tree.setZ, hh]
    exact .refl hlive
  | some h =>
    obtain ⟨t', ht', hlifted⟩ := wf.setZ_eq hh z
    rw [ht']
    exact .of_lifted hlive (wf.eq_of_isAncestor_of_within hr hh hout) wf hlifted

theorem agreeBelow_update {f : View α → View α} (hout : t.Within root tag → tag = root)
    (hself : tag = root → ∀ n : Node α, t.nodes[r]? = some n →
      n.AlikeInside { n with view := f n.view }) : AgreeBelow r t (t.update tag f).2 := by
  have hlive := wf.mem_nodes_of_handle? hr
  rw [Tree.update]
  split
  · next h hh =>
    obtain ⟨n, hn⟩ := mem_nodes_iff.1 (wf.mem_nodes_of_handle? hh)
    rw [node_eq_ok hn]
    refine .of_put (g := fun m => { m with view := f m.view }) hlive
      (wf.eq_of_isAncestor_of_within hr hh hout) hn fun heq => ?_
    subst heq
    refine hself ?_ n hn
    rw [← (wf.handle?_eq_some_iff.1 hh).2, ← (wf.handle?_eq_some_iff.1 hr).2]
  · exact .refl hlive

/-- The root is not destroyed, so it does not lie below the view that is, and nothing else of the
subtree does either. -/
theorem agreeBelow_remove (hout : ¬ t.Within root tag)
    (hleft : (t.remove tag).2.contains root = true) : AgreeBelow r t (t.remove tag).2 := by
  have hlive := wf.mem_nodes_of_handle? hr
  cases hh : t.handle? tag with
  | none =>
    rw [Tree.remove, hh]
    exact .refl hlive
  | some h =>
    have hout : ¬ t.IsAncestor r h := mt (wf.within_iff hr hh).2 hout
    have hkept : ¬ t.IsAncestor h r := fun hanc =>
      Bool.noConfusion ((wf.contains_remove_of_isAncestor hh hr hanc).symm.trans hleft)
    refine .of_severed (h := h) hlive (fun hanc => absurd hanc hout) wf fun k hk => ?_
    refine wf.nodes_remove_of_not_isAncestor hh fun hanc => ?_
    exact (isAncestor_or_isAncestor hk hanc).elim hout hkept

variable [Scalar α] {c : Command α}

/-- What a command affects is all that it changes. -/
theorem agreeBelow_of_outside (hc : ∀ x ∈ c.affected t, ¬ t.Within root x)
    (ht' : t.apply c = .ok t') (hleft : t'.contains root = true) : AgreeBelow r t t' := by
  have hout : ¬ t.Within root c.subject := hc _ List.mem_cons_self
  have hbelow : t.Within root c.subject → c.subject = root := fun hw => absurd hw hout
  cases hset : c.setting? with
  | some f =>
    rw [apply_of_setting hset] at ht'
    exact Except.ok.inj ht' ▸ wf.agreeBelow_update hr hbelow fun heq =>
      absurd (heq ▸ .refl) hout
  | none =>
    cases c with
    | create tag kind => exact wf.agreeBelow_create hr ht'
    | insert tag parent index =>
      refine wf.agreeBelow_insert hr hbelow (fun hw => absurd hw (hc parent ?_)) ht'
      simp [Command.affected, Command.newParent?]
    | remove tag =>
      cases ht'
      exact wf.agreeBelow_remove hr hout hleft
    | detach tag => exact Except.ok.inj ht' ▸ wf.agreeBelow_detach hr hbelow
    | setZ tag z => exact Except.ok.inj ht' ▸ wf.agreeBelow_setZ hr hbelow z
    | _ => cases hset

/-- Another place for the root is no change to those below it. -/
theorem agreeBelow_of_repositions (hc : c.Repositions t root) (ht' : t.apply c = .ok t') :
    AgreeBelow r t t' := by
  have hbelow : t.Within root root → root = root := fun _ => rfl
  cases hc with
  | insert parent index => exact wf.agreeBelow_insert hr hbelow (fun _ => rfl) ht'
  | detach => exact Except.ok.inj ht' ▸ wf.agreeBelow_detach hr hbelow
  | setZ z => exact Except.ok.inj ht' ▸ wf.agreeBelow_setZ hr hbelow z
  | setTransform transform =>
    exact Except.ok.inj ht' ▸ wf.agreeBelow_update hr hbelow fun _ n _ =>
      ⟨rfl, rfl, rfl, rfl, rfl, rfl, rfl, rfl⟩
  | setFrame frame hsize =>
    exact Except.ok.inj ht' ▸ wf.agreeBelow_update hr hbelow fun _ n hn =>
      ⟨rfl, hsize n.view (view?_eq hr hn), rfl, rfl, rfl, rfl, rfl, rfl⟩

theorem agreeBelow_after (hc : ((∀ x ∈ c.affected t, ¬ t.Within root x) ∧
      (t.after c).contains root = true) ∨ c.Repositions t root) :
    AgreeBelow r t (t.after c) := by
  cases ht' : t.apply c with
  | error e =>
    rw [Tree.after, ht']
    exact .refl (wf.mem_nodes_of_handle? hr)
  | ok t' =>
    rw [Tree.after, ht'] at hc ⊢
    rcases hc with ⟨hc, hleft⟩ | hc
    · exact wf.agreeBelow_of_outside hr hc ht' hleft
    · exact wf.agreeBelow_of_repositions hr hc ht'

end WellFormed

/-- If the view that a command changes, its old parent and its new parent are all outside a
subtree, and its root is not destroyed, or if all that is changed is where the root is, then the
subtree has the same views as before, the same of them are hit from its root, and the paths, maps
and boxes from the root to any of them are the same. -/
theorem Reachable.subtree_unaffected [Scalar α] (ht : t.Reachable) {c : Command α}
    (hroot : t.contains root = true)
    (hc : ((∀ x ∈ c.affected t, ¬ t.Within root x) ∧ (t.after c).contains root = true) ∨
      c.Repositions t root) :
    (∀ p, (t.after c).hitTest p root = t.hitTest p root) ∧
    (∀ tag, (t.after c).Within root tag ↔ t.Within root tag) ∧
    ∀ tag, t.Within root tag →
      (t.after c).path? root tag = t.path? root tag ∧
      (t.after c).rootToLocal root tag = t.rootToLocal root tag ∧
      (t.after c).globalFrame tag root = t.globalFrame tag root := by
  have wf := ht.wellFormed
  have wf' := wf.after c
  obtain ⟨r, hr⟩ := exists_handle_iff.1 hroot
  have agree := wf.agreeBelow_after hr hc
  refine ⟨agree.hitTest_eq wf wf' hr, fun tag => agree.within_iff wf wf' hr, fun tag hw => ?_⟩
  obtain ⟨h, hh, hanc⟩ := wf.exists_handle_of_within hr hw
  exact ⟨agree.path?_eq wf wf' hr hh hanc, agree.rootToLocal_eq wf wf' hr hh hanc,
    agree.globalFrame_eq wf wf' hr hh hanc⟩

/-- A view is taken away from beside another, and that one is then put under a third. -/
theorem flattened_subtree_unaffected :
    (∀ p, (flattened.after (.remove ⟨2⟩)).hitTest p ⟨3⟩ = flattened.hitTest p ⟨3⟩) ∧
    (∀ p, (flattened.after (.insert ⟨3⟩ ⟨2⟩ 0)).hitTest p ⟨3⟩ = flattened.hitTest p ⟨3⟩) := by
  have hreach : flattened.Reachable := ((Reachable.empty.foldl _).foldl _).foldl _
  have hroot : flattened.contains ⟨3⟩ = true := by cbv
  have hleft : (flattened.after (.remove ⟨2⟩)).contains ⟨3⟩ = true := by cbv
  have hpaths : ∀ x ∈ (Command.remove ⟨2⟩).affected flattened,
      (flattened.path? ⟨3⟩ x).isSome = false := by
    decide +kernel
  have hout : ∀ x ∈ (Command.remove ⟨2⟩).affected flattened, ¬ flattened.Within ⟨3⟩ x := by
    intro x hx hw
    rw [hreach.wellFormed.within_iff_path? hroot, hpaths x hx] at hw
    cases hw
  exact ⟨(hreach.subtree_unaffected hroot (.inl ⟨hout, hleft⟩)).1,
    (hreach.subtree_unaffected hroot (.inr (.insert _ _))).1⟩

end Tree

end ViewHost
