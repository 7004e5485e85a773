import ViewHost.Proofs.Tree.Edit
import ViewHost.Tree.Command

/-!
# Operations keep trees well-formed

On a well-formed tree the operations find every node they look for, and what they
do comes to an edit of links. The exceptions are a new node, which nothing is
linked to, and a destroyed subtree, whose nodes go one by one.
-/

namespace ViewHost

variable {α : Type}

namespace Command

/-- The view that a command names, the one to change. -/
def subject : Command α → Tag
  | .create tag _ | .insert tag _ _ | .remove tag | .detach tag | .setFrame tag _
  | .setTransform tag _ | .setZ tag _ | .setClip tag _ | .setHidden tag _
  | .setPointerEvents tag _ | .setHitSlop tag _ | .setCursor tag _ => tag

/-- What becomes of the view that a command names, if it changes a setting. The z is none, since
the view has a place in a paint order by it. -/
def setting? : Command α → Option (View α → View α)
  | .setFrame _ frame => some fun v => { v with frame := frame }
  | .setTransform _ transform => some fun v => { v with transform := transform }
  | .setClip _ clips => some fun v => { v with clips := clips }
  | .setHidden _ hidden => some fun v => { v with hidden := hidden }
  | .setPointerEvents _ mode => some fun v => { v with pointerEvents := mode }
  | .setHitSlop _ insets => some fun v => { v with hitSlop := insets }
  | .setCursor _ cursor => some fun v => { v with cursor := cursor }
  | .create _ _ | .insert _ _ _ | .remove _ | .detach _ | .setZ _ _ => none

variable {c : Command α} {f : View α → View α}

theorem tag_of_setting (hc : c.setting? = some f) (v : View α) : (f v).tag = v.tag := by
  cases c <;> cases hc <;> rfl

theorem z_of_setting (hc : c.setting? = some f) (v : View α) : (f v).z = v.z := by
  cases c <;> cases hc <;> rfl

end Command

namespace Tree

variable {t t' : Tree α} {h k p : Handle} {n q : Node α} {loose : List Handle}

/-! ## Paint orders -/

theorem repaint_eq_ok (hq : t.nodes[p]? = some q) (live : ∀ c ∈ q.children, c ∈ t.nodes) :
    t.repaint p = .ok (t.put p
      { q with paintOrder := byZ (q.children.map fun c => (c, t.zOf c)) }) := by
  have hz : (q.children.mapM fun c => do return (c, (← t.node c).view.z)) =
      Except.ok (q.children.map fun c => (c, t.zOf c)) := by
    apply mapM_eq_ok
    intro c hc
    obtain ⟨n, hn⟩ := mem_nodes_iff.1 (live c hc)
    rw [node_eq_ok hn, zOf_of_node hn]
    rfl
  rw [repaint, node_eq_ok hq]
  simp only [ok_bind, hz]
  rfl

/-! ## Taking a node off its parent -/

theorem filter_ne_eq_self {hs : List Handle} (hh : h ∉ hs) : hs.filter (· ≠ h) = hs := by
  rw [List.filter_eq_self]
  intro c hc
  exact decide_eq_true (ne_of_mem_of_not_mem hc hh)

namespace WellFormed

/-- A node that is not the parent of `h` keeps its lists when `h` is severed. -/
theorem severed_eq (wf : t.WellFormed) (hn : t.nodes[k]? = some n) (hp : ¬ t.IsParent k h) :
    n.severed h k = { n with parent := if k = h then none else n.parent } := by
  have hchildren : h ∉ n.children := by
    rwa [← childrenOf_of_node hn, wf.mem_childrenOf_iff]
  have hpainted : h ∉ n.paintOrder := by
    rwa [← paintedOf_of_node hn, (wf.painted k).mem_iff, childrenOf_of_node hn]
  rw [Node.severed, filter_ne_eq_self hchildren, filter_ne_eq_self hpainted]

/-- Without a parent there is nothing to sever. -/
theorem severed_self (wf : t.WellFormed) (hh : t.parentOf? h = none) : Severed h t t where
  issued := rfl
  handles := rfl
  nodes k := by
    cases hn : t.nodes[k]? with
    | none => rfl
    | some n =>
      rw [Option.map_some, wf.severed_eq hn (by simp [IsParent, hh])]
      by_cases hk : k = h
      · subst hk
        rw [if_pos rfl, ← hh, parentOf?_of_node hn]
      · rw [if_neg hk]

theorem unlink_eq_ok (wf : t.WellFormed) (hh : h ∈ t.nodes) :
    ∃ t', t.unlink h = .ok ((t.parentOf? h).isSome, t') ∧ Severed h t t' := by
  obtain ⟨n, hn⟩ := mem_nodes_iff.1 hh
  have hparent := parentOf?_of_node hn
  cases hp : n.parent with
  | none =>
    refine ⟨t, ?_, wf.severed_self (hparent.trans hp)⟩
    rw [unlink, node_eq_ok hn, hparent]
    simp only [ok_bind, hp]
    rfl
  | some p =>
    have hph : t.IsParent p h := hparent.trans hp
    have hne : h ≠ p := (wf.ne_of_isParent hph).symm
    obtain ⟨q, hq, -⟩ := wf.node_of_isParent hph
    refine ⟨(t.put h { n with parent := none }).put p { q with
      children := q.children.filter (· ≠ h)
      paintOrder := q.paintOrder.filter (· ≠ h) }, ?_, rfl, rfl, fun k => ?_⟩
    · have hq' : (t.put h { n with parent := none }).nodes[p]? = some q := by
        rw [nodes_put, if_neg hne, hq]
      rw [unlink, node_eq_ok hn, hparent]
      simp only [ok_bind, hp, node_eq_ok hq']
      rfl
    · rw [nodes_put, nodes_put]
      by_cases hkp : p = k
      · subst hkp
        simp [hq, Node.severed, hne.symm]
      · have hnp : ¬ t.IsParent k h := fun hc => hkp (Option.some.inj (hph.symm.trans hc))
        rw [if_neg hkp]
        by_cases hkh : h = k
        · subst hkh
          rw [if_pos rfl, hn, Option.map_some, wf.severed_eq hn hnp, if_pos rfl]
        · rw [if_neg hkh]
          cases hm : t.nodes[k]? with
          | none => rfl
          | some m => rw [Option.map_some, wf.severed_eq hm hnp, if_neg (Ne.symm hkh)]

theorem issued_unlink (wf : t.WellFormed) (hh : h ∈ t.nodes) :
    (intact (false, t) (t.unlink h)).2.issued = t.issued := by
  obtain ⟨t', ht', hsevered⟩ := wf.unlink_eq_ok hh
  rw [ht']
  exact Edited.issued hsevered

end WellFormed

/-! ## Hanging a node under another -/

theorem WellFormed.link_eq_ok (wf : t.WellFormed) (hh : h ∈ t.nodes) (hp : p ∈ t.nodes)
    (hne : p ≠ h) (index : Nat) : ∃ t', t.link h p index = .ok t' ∧ Grafted h p index t t' := by
  obtain ⟨n, hn⟩ := mem_nodes_iff.1 hh
  obtain ⟨q, hq⟩ := mem_nodes_iff.1 hp
  let children := q.children.take index ++ h :: q.children.drop index
  let t₁ := t.put p { q with children := children }
  let t₂ := t₁.put h { n with parent := some p }
  have hn₁ : t₁.nodes[h]? = some n := by simp [t₁, hne, hn]
  have hq₂ : t₂.nodes[p]? = some { q with children := children } := by simp [t₂, t₁, hne.symm]
  have live : ∀ c ∈ children, c ∈ t₂.nodes := by
    intro c hc
    have hc : c ∈ t.nodes := by
      rcases List.mem_cons.1 ((insert_perm q.children h index).mem_iff.1 hc) with rfl | hc
      · exact hh
      · obtain ⟨m, hm, -⟩ := wf.node_of_mem_children hq hc
        exact mem_nodes_iff.2 ⟨m, hm⟩
    obtain ⟨m, hm⟩ := mem_nodes_iff.1 hc
    rw [mem_nodes_iff]
    simp only [t₂, t₁, nodes_put, hm]
    split
    · exact ⟨_, rfl⟩
    · split <;> exact ⟨_, rfl⟩
  have hz : t₂.zOf = t.zOf := by
    funext k
    simp only [zOf, t₂, t₁, nodes_put]
    by_cases hk : h = k
    · subst hk
      simp [hn]
    · by_cases hkp : p = k
      · subst hkp
        simp [hk, hq]
      · simp [hk, hkp]
  refine ⟨t₂.put p { q with
    children := children
    paintOrder := byZ (children.map fun c => (c, t₂.zOf c)) }, ?_, rfl, rfl, fun k => ?_⟩
  · rw [link, node_eq_ok hq]
    simp only [ok_bind]
    rw [node_eq_ok hn₁]
    exact repaint_eq_ok hq₂ live
  · rw [hz]
    simp only [t₂, t₁, nodes_put]
    by_cases hkp : p = k
    · subst hkp
      simp [hq, Node.grafted, hne, children]
    · by_cases hk : h = k
      · subst hk
        simp [hn, Node.grafted, Ne.symm hkp, hkp]
      · cases t.nodes[k]? <;> simp [hkp, hk, Node.grafted, Ne.symm hkp, Ne.symm hk]

/-- A node is moved by severing it and grafting it, unless that would close a
cycle. -/
theorem WellFormed.move?_eq_ok (wf : t.WellFormed) (hh : h ∈ t.nodes) (hp : p ∈ t.nodes)
    (hnot : ¬ t.IsAncestor h p) (index : Nat) :
    ∃ t₁ t', t.move? h p index = .ok (some t') ∧ Severed h t t₁ ∧ Grafted h p index t₁ t' ∧
      t'.WellFormed := by
  obtain ⟨way, hway, harrived⟩ := wf.climb_eq_ok h hp
  have harrived : way.arrived = false := by
    rw [← Bool.not_eq_true, harrived]
    exact hnot
  obtain ⟨t₁, ht₁, hsevered⟩ := wf.unlink_eq_ok hh
  have wf₁ := hsevered.wellFormed wf
  have hh₁ : h ∈ t₁.nodes := (Edited.mem_nodes_iff hsevered).2 hh
  have hp₁ : p ∈ t₁.nodes := (Edited.mem_nodes_iff hsevered).2 hp
  have htop : t₁.parentOf? h = none := by rw [hsevered.parentOf?_eq, if_pos rfl]
  have hnot₁ : ¬ t₁.IsAncestor h p := fun hc =>
    hnot (hc.lift id fun _ _ hs => (hsevered.isParent_iff.1 hs).1)
  have hne : p ≠ h := by
    rintro rfl
    exact hnot .refl
  obtain ⟨t', ht', hgrafted⟩ := wf₁.link_eq_ok hh₁ hp₁ hne index
  refine ⟨t₁, t', ?_, hsevered, hgrafted, hgrafted.wellFormed wf₁ hh₁ hp₁ htop hnot₁⟩
  rw [move?]
  simp only [hway, ok_bind, harrived, ht₁, ht', Bool.false_eq_true, if_false]
  rfl

theorem WellFormed.move?_eq_none (wf : t.WellFormed) (hp : p ∈ t.nodes) (hanc : t.IsAncestor h p)
    (index : Nat) : t.move? h p index = .ok none := by
  obtain ⟨way, hway, harrived⟩ := wf.climb_eq_ok h hp
  rw [move?]
  simp only [hway, ok_bind, harrived.2 hanc, if_true]
  rfl

theorem WellFormedBut.mem_nodes_of_handle? {tag : Tag} (wf : t.WellFormedBut loose)
    (hh : t.handle? tag = some h) : h ∈ t.nodes := by
  obtain ⟨n, hn, -⟩ := tagOf?_eq_some_iff.1 ((wf.tagged tag h).1 hh)
  exact mem_nodes_iff.2 ⟨n, hn⟩

/-- An insertion that is not refused moves the node of the view. -/
theorem WellFormed.exists_moved {tag parent : Tag} {index : Nat} (wf : t.WellFormed)
    (ht' : t.insert tag parent index = .ok t') :
    ∃ h p, t.handle? tag = some h ∧ t.handle? parent = some p ∧ ¬ t.IsAncestor h p ∧
      Moved h p index t t' ∧ t'.WellFormed := by
  rw [Tree.insert] at ht'
  split at ht'
  · cases ht'
  · cases ht'
  next h p hh hp =>
  have hlive := wf.mem_nodes_of_handle? hh
  have hplive := wf.mem_nodes_of_handle? hp
  have hnot : ¬ t.IsAncestor h p := by
    intro hanc
    rw [wf.move?_eq_none hplive hanc] at ht'
    cases ht'
  obtain ⟨t₁, t₂, ht₂, hsevered, hgrafted, wf₂⟩ := wf.move?_eq_ok hlive hplive hnot index
  rw [ht₂] at ht'
  cases ht'
  exact ⟨h, p, hh, hp, hnot, ⟨hlive, hplive, t₁, hsevered, hgrafted⟩, wf₂⟩

theorem WellFormed.insert {tag parent : Tag} {index : Nat} (wf : t.WellFormed)
    (ht' : t.insert tag parent index = .ok t') : t'.WellFormed := by
  obtain ⟨-, -, -, -, -, -, wf'⟩ := wf.exists_moved ht'
  exact wf'

theorem WellFormed.detach (wf : t.WellFormed) (tag : Tag) : (t.detach tag).2.WellFormed := by
  rw [Tree.detach]
  split
  · next h hh =>
    obtain ⟨t', ht', hsevered⟩ := wf.unlink_eq_ok (wf.mem_nodes_of_handle? hh)
    rw [ht']
    exact hsevered.wellFormed wf
  · exact wf

/-! ## Changing settings -/

/-- A setting that is neither the tag nor the z is in no other part of the tree. -/
theorem WellFormed.update {f : View α → View α} (wf : t.WellFormed) (tag : Tag)
    (htag : ∀ v, (f v).tag = v.tag) (hz : ∀ v, (f v).z = v.z) :
    (t.update tag f).2.WellFormed := by
  rw [Tree.update]
  split
  · next h hh =>
    obtain ⟨n, hn⟩ := mem_nodes_iff.1 (wf.mem_nodes_of_handle? hh)
    have e := edited_put hn fun m => { m with view := f m.view }
    have hzOf : (t.put h { n with view := f n.view }).zOf = t.zOf := by
      apply e.zOf_eq
      intro k m
      split <;> simp [hz]
    rw [node_eq_ok hn]
    refine e.wellFormed wf (fun k m => ?_) (fun k m => ?_) (fun k m => ?_) fun k m hm => ?_
    · split <;> simp [htag]
    · split <;> rfl
    · split <;> rfl
    · have hpainted := wf.painted k
      rw [childrenOf_of_node hm, paintedOf_of_node hm] at hpainted
      rw [hzOf]
      split <;> exact hpainted
  · exact wf

theorem WellFormed.lifted_self (wf : t.WellFormed) (hn : t.nodes[h]? = some n) :
    Lifted h n.view.z t t where
  issued := rfl
  handles := rfl
  nodes k := by
    have hz : Function.update t.zOf h n.view.z = t.zOf := by
      rw [← zOf_of_node hn, Function.update_eq_self]
    cases hm : t.nodes[k]? with
    | none => rfl
    | some m =>
      have hview : (if k = h then { m.view with z := t.zOf h } else m.view) = m.view := by
        by_cases hk : k = h
        · subst hk
          rw [if_pos rfl, zOf_of_node hm]
        · rw [if_neg hk]
      have hpaint : byZ (m.children.map fun c => (c, t.zOf c)) = m.paintOrder := by
        have hpainted := wf.painted k
        rw [childrenOf_of_node hm, paintedOf_of_node hm] at hpainted
        exact (byZ_stablySorted _ _).unique hpainted
      rw [Option.map_some, hz, Node.lifted, hview, hpaint, ite_self]

/-- The tree with another z for a node, and nothing done about it yet. -/
def withZ (t : Tree α) (h : Handle) (n : Node α) (z : Int) : Tree α :=
  t.put h { n with view := { n.view with z := z } }

theorem zOf_withZ (t : Tree α) (h : Handle) (n : Node α) (z : Int) :
    (t.withZ h n z).zOf = Function.update t.zOf h z := by
  funext k
  rw [zOf, withZ, nodes_put]
  by_cases hk : h = k
  · subst hk
    simp
  · rw [if_neg hk, Function.update_of_ne (Ne.symm hk), zOf]

/-- Without a parent there is no paint order to put right. -/
theorem lifted_withZ (hn : t.nodes[h]? = some n) (hparent : t.parentOf? h = none) (z : Int) :
    Lifted h z t (t.withZ h n z) where
  issued := rfl
  handles := rfl
  nodes k := by
    rw [withZ, nodes_put, hparent]
    by_cases hk : h = k
    · subst hk
      simp [hn, Node.lifted]
    · cases t.nodes[k]? <;> simp [Node.lifted, hk, Ne.symm hk]

theorem WellFormed.repaint_withZ_eq_ok (wf : t.WellFormed) (hn : t.nodes[h]? = some n)
    (hparent : t.parentOf? h = some p) (z : Int) :
    ∃ t', (t.withZ h n z).repaint p = .ok t' ∧ Lifted h z t t' := by
  have hne : h ≠ p := (wf.ne_of_isParent hparent).symm
  obtain ⟨q, hq, -⟩ := wf.node_of_isParent hparent
  have hq₁ : (t.withZ h n z).nodes[p]? = some q := by rw [withZ, nodes_put, if_neg hne, hq]
  have live : ∀ c ∈ q.children, c ∈ (t.withZ h n z).nodes := by
    intro c hc
    obtain ⟨m, hm, -⟩ := wf.node_of_mem_children hq hc
    exact (edited_put hn fun m => { m with view := { m.view with z := z } }).mem_nodes_iff.2
      (mem_nodes_iff.2 ⟨m, hm⟩)
  refine ⟨_, repaint_eq_ok hq₁ live, rfl, rfl, fun k => ?_⟩
  rw [zOf_withZ, withZ, nodes_put, nodes_put, hparent]
  by_cases hkp : p = k
  · subst hkp
    simp [hq, Node.lifted, hne.symm]
  · by_cases hk : h = k
    · subst hk
      simp [hn, Node.lifted, hkp]
    · cases t.nodes[k]? <;> simp [Node.lifted, hkp, hk, Ne.symm hk]

theorem WellFormed.setZ_eq {tag : Tag} (wf : t.WellFormed) (hh : t.handle? tag = some h)
    (z : Int) : ∃ t', t.setZ tag z = (true, t') ∧ Lifted h z t t' := by
  obtain ⟨n, hn⟩ := mem_nodes_iff.1 (wf.mem_nodes_of_handle? hh)
  have hparent := parentOf?_of_node hn
  simp only [Tree.setZ, hh, node_eq_ok hn, ok_bind]
  by_cases hz : n.view.z = z
  · rw [if_pos hz]
    exact ⟨t, rfl, hz ▸ wf.lifted_self hn⟩
  rw [if_neg hz]
  split
  · next p hup =>
    obtain ⟨t', ht', hlifted⟩ := wf.repaint_withZ_eq_ok hn (hparent.trans hup) z
    exact ⟨t', congrArg (fun r => (true, intact t r)) ht', hlifted⟩
  · next hup => exact ⟨_, rfl, lifted_withZ hn (hparent.trans hup) z⟩

theorem WellFormed.setZ (wf : t.WellFormed) (tag : Tag) (z : Int) :
    (t.setZ tag z).2.WellFormed := by
  cases hh : t.handle? tag with
  | none =>
    rw [Tree.setZ, hh]
    exact wf
  | some h =>
    obtain ⟨t', ht', hlifted⟩ := wf.setZ_eq hh z
    rw [ht']
    exact hlifted.wellFormed wf (wf.mem_nodes_of_handle? hh)

/-! ## Creating and destroying -/

theorem WellFormed.empty : (Tree.empty : Tree α).WellFormed where
  issued h hh := by simp [Tree.empty] at hh
  tagged tag h := by simp [Tree.empty, tagOf?]
  linked p h := by simp [Tree.empty, childrenOf, parentOf?]
  nodup p := by simp [Tree.empty, childrenOf]
  acyclic h hc := by
    obtain ⟨p, -, hp⟩ := Relation.TransGen.tail'_iff.1 hc
    simp [Tree.empty, IsParent, parentOf?] at hp
  painted p := by
    simpa [Tree.empty, childrenOf, paintedOf] using StablySorted.nil

/-- `t'` is `t` with one more node, to which nothing refers but its own tag. -/
structure Joined (h : Handle) (n : Node α) (t t' : Tree α) : Prop where
  fresh : t.nodes[h]? = none
  unknown : t.handles[n.view.tag]? = none
  nodes : ∀ k, t'.nodes[k]? = if h = k then some n else t.nodes[k]?
  handles : ∀ tag, t'.handles[tag]? = if n.view.tag = tag then some h else t.handles[tag]?

namespace Joined

/-- The new node is as good as none to all but the tag table. -/
theorem views_eq (j : Joined h n t t') (hparent : n.parent = none) (hchildren : n.children = [])
    (hpaint : n.paintOrder = []) (hz : n.view.z = 0) (k : Handle) :
    t'.parentOf? k = t.parentOf? k ∧ t'.childrenOf k = t.childrenOf k ∧
      t'.paintedOf k = t.paintedOf k ∧ t'.zOf k = t.zOf k := by
  rw [parentOf?, childrenOf, paintedOf, zOf, j.nodes]
  split
  · next hk =>
    subst hk
    simp [parentOf?, childrenOf, paintedOf, zOf, j.fresh, hparent, hchildren, hpaint, hz]
  · exact ⟨rfl, rfl, rfl, rfl⟩

theorem tagged (j : Joined h n t t') (wf : t.WellFormed) (tag : Tag) (k : Handle) :
    t'.handles[tag]? = some k ↔ t'.tagOf? k = some tag := by
  rw [j.handles, tagOf?, j.nodes]
  by_cases htag : n.view.tag = tag
  · subst htag
    by_cases hk : h = k
    · simp [hk]
    · have hknown := wf.tagged n.view.tag k
      rw [j.unknown] at hknown
      simpa [hk, tagOf?] using hknown
  · by_cases hk : h = k
    · subst hk
      have hknown := wf.tagged tag h
      rw [tagOf?, j.fresh] at hknown
      simpa [htag] using hknown
    · rw [if_neg htag, if_neg hk, wf.tagged, tagOf?]

end Joined

/-- The handle of a new node has never been issued, so nothing refers to it. -/
theorem WellFormed.create [Scalar α] {tag : Tag} {kind : ViewKind} (wf : t.WellFormed)
    (ht' : t.create tag kind = .ok t') : t'.WellFormed := by
  rw [Tree.create] at ht'
  split at ht'
  · cases ht'
  next hnew =>
  cases ht'
  let h : Handle := ⟨t.issued⟩
  let n : Node α := ⟨.new tag kind, none, [], []⟩
  let t₁ : Tree α := ⟨t.nodes.insert h n, t.handles.insert tag h, t.issued + 1⟩
  have j : Joined h n t t₁ :=
    { fresh := by
        rw [← Option.not_isSome_iff_eq_none, ← Std.ExtTreeMap.mem_iff_isSome_getElem?]
        intro hm
        exact Nat.lt_irrefl _ (wf.issued _ hm)
      unknown := Std.ExtTreeMap.getElem?_eq_none_of_contains_eq_false (Bool.not_eq_true _ ▸ hnew)
      nodes := fun k => nodes_put t h k n
      handles := fun tag' => by
        change (t.handles.insert tag h)[tag']? = if tag = tag' then some h else t.handles[tag']?
        simp [Std.ExtTreeMap.getElem?_insert, Std.LawfulEqCmp.compare_eq_iff_eq] }
  have hviews := j.views_eq rfl rfl rfl rfl
  refine ⟨fun k hk => ?_, j.tagged wf, fun p k => ?_, fun p => ?_, ?_, fun p => ?_⟩
  · obtain ⟨m, hm⟩ := mem_nodes_iff.1 hk
    rw [j.nodes] at hm
    split at hm
    · next hk => exact hk ▸ Nat.lt_succ_self _
    · exact Nat.lt_succ_of_lt (wf.issued k (mem_nodes_iff.2 ⟨m, hm⟩))
  · rw [(hviews p).2.1, (hviews k).1, wf.linked]
  · rw [(hviews p).2.1]
    exact wf.nodup p
  · have hparents : t₁.IsParent = t.IsParent :=
      funext₂ fun p k => by rw [IsParent, IsParent, (hviews k).1]
    rw [hparents]
    exact wf.acyclic
  · rw [(hviews p).2.1, (hviews p).2.2.1]
    exact (wf.painted p).congr fun k _ => (hviews k).2.2.2

/-- `t'` is `t` without the node `h`, which was found under `tag`. -/
structure Erased (h : Handle) (tag : Tag) (t t' : Tree α) : Prop where
  issued : t'.issued = t.issued
  nodes : ∀ k, t'.nodes[k]? = if h = k then none else t.nodes[k]?
  handles : ∀ tag', t'.handles[tag']? = if tag = tag' then none else t.handles[tag']?

theorem erased_erase (t : Tree α) (h : Handle) (tag : Tag) :
    Erased h tag t { t with nodes := t.nodes.erase h, handles := t.handles.erase tag } where
  issued := rfl
  nodes k := by simp [Std.ExtTreeMap.getElem?_erase, Std.LawfulEqCmp.compare_eq_iff_eq]
  handles tag' := by simp [Std.ExtTreeMap.getElem?_erase, Std.LawfulEqCmp.compare_eq_iff_eq]

namespace Erased

variable {tag : Tag}

theorem tagOf?_eq (e : Erased h tag t t') (k : Handle) :
    t'.tagOf? k = if h = k then none else t.tagOf? k := by
  rw [tagOf?, e.nodes]
  split <;> rfl

theorem parentOf?_eq (e : Erased h tag t t') (k : Handle) :
    t'.parentOf? k = if h = k then none else t.parentOf? k := by
  rw [parentOf?, e.nodes]
  split <;> rfl

theorem childrenOf_eq (e : Erased h tag t t') (p : Handle) :
    t'.childrenOf p = if h = p then [] else t.childrenOf p := by
  rw [childrenOf, e.nodes]
  split <;> rfl

theorem paintedOf_eq (e : Erased h tag t t') (p : Handle) :
    t'.paintedOf p = if h = p then [] else t.paintedOf p := by
  rw [paintedOf, e.nodes]
  split <;> rfl

theorem zOf_eq (e : Erased h tag t t') {k : Handle} (hk : h ≠ k) : t'.zOf k = t.zOf k := by
  rw [zOf, e.nodes, if_neg hk, zOf]

theorem isParent (e : Erased h tag t t') {p k : Handle} (hp : t'.IsParent p k) :
    t.IsParent p k := by
  rw [IsParent, e.parentOf?_eq] at hp
  split at hp
  · cases hp
  · exact hp

/-- The tag that the node was found under finds nothing any more. -/
theorem tagged (e : Erased h tag t t') (wf : t.WellFormedBut loose) (hn : t.tagOf? h = some tag)
    (tag' : Tag) (k : Handle) : t'.handles[tag']? = some k ↔ t'.tagOf? k = some tag' := by
  rw [e.handles, e.tagOf?_eq]
  by_cases htag : tag = tag'
  · subst htag
    have hunique := fun hk => wf.tag_inj (h := h) (k := k) hn hk
    by_cases hk : h = k
    · simp [hk]
    · simp [hk, mt hunique hk]
  · by_cases hk : h = k
    · subst hk
      simp [htag, wf.tagged, hn]
    · rw [if_neg htag, if_neg hk, wf.tagged]

end Erased

/-- Once the first loose node is erased, its children are loose in its place. -/
theorem WellFormedBut.erase (wf : t.WellFormedBut (h :: loose)) (hn : t.nodes[h]? = some n)
    (e : Erased h n.view.tag t t') : t'.WellFormedBut (n.children.reverse ++ loose) := by
  have mem_children : ∀ k, k ∈ n.children ↔ t.parentOf? k = some h ∧ k ∉ h :: loose := fun k => by
    rw [← wf.linked, childrenOf_of_node hn]
  refine ⟨fun k hk => ?_, e.tagged wf (tagOf?_of_node hn), fun p k => ?_, fun p => ?_,
    fun k hc => ?_, fun p => ?_⟩
  · obtain ⟨m, hm⟩ := mem_nodes_iff.1 hk
    rw [e.nodes] at hm
    split at hm
    · cases hm
    · rw [e.issued]
      exact wf.issued k (mem_nodes_iff.2 ⟨m, hm⟩)
  · rw [e.childrenOf_eq, e.parentOf?_eq, List.mem_append, List.mem_reverse, mem_children]
    by_cases hp : h = p
    · subst hp
      by_cases hk : h = k
      · simp [hk]
      · simp [hk, Ne.symm hk]
        grind
    · rw [if_neg hp, wf.linked]
      by_cases hk : h = k
      · simp [hk]
      · simp [hk, Ne.symm hk]
        grind
  · rw [e.childrenOf_eq]
    split
    · exact List.nodup_nil
    · exact wf.nodup p
  · exact wf.acyclic k (hc.lift id fun _ _ => e.isParent)
  · rw [e.childrenOf_eq, e.paintedOf_eq]
    by_cases hp : h = p
    · rw [if_pos hp, if_pos hp]
      exact .nil
    · rw [if_neg hp, if_neg hp]
      refine (wf.painted p).congr fun c hc => e.zOf_eq ?_
      rintro rfl
      exact ((wf.linked p h).1 hc).2 List.mem_cons_self

/-- A handle that leads nowhere is nobody's child. -/
theorem WellFormedBut.of_cons (wf : t.WellFormedBut (h :: loose)) (hh : t.nodes[h]? = none) :
    t.WellFormedBut loose :=
  { wf with
    linked := fun p k => by
      rw [wf.linked, List.mem_cons, not_or]
      refine and_congr_right fun hk => and_iff_right ?_
      rintro rfl
      simp [parentOf?, hh] at hk }

theorem sweep_nil (t : Tree α) : t.sweep [] = (0, t) := by rw [Tree.sweep]

theorem sweep_of_none (hh : t.nodes[h]? = none) : t.sweep (h :: loose) = t.sweep loose := by
  rw [Tree.sweep]
  split
  · rfl
  · next hn => cases hh.symm.trans hn

theorem sweep_of_node (hn : t.nodes[h]? = some n) : t.sweep (h :: loose) =
    let swept := ({ t with nodes := t.nodes.erase h, handles := t.handles.erase n.view.tag } :
      Tree α).sweep (n.children.reverse ++ loose)
    (swept.1 + 1, swept.2) := by
  rw [Tree.sweep]
  split
  · next hh => cases hh.symm.trans hn
  · next m hm =>
    cases Option.some.inj (hm.symm.trans hn)
    rfl

/-- The tree without one of its nodes, which bears the tag. -/
def without (t : Tree α) (h : Handle) (tag : Tag) : Tree α :=
  { t with nodes := t.nodes.erase h, handles := t.handles.erase tag }

/-- Each step of a sweep leaves fewer nodes, or as many and a shorter list. -/
theorem sweep_induction {motive : Tree α → List Handle → Prop} (done : ∀ t, motive t [])
    (gone : ∀ t h rest, t.nodes[h]? = none → motive t rest → motive t (h :: rest))
    (found : ∀ t h n rest, t.nodes[h]? = some n →
      motive (t.without h n.view.tag) (n.children.reverse ++ rest) → motive t (h :: rest))
    (t : Tree α) (todo : List Handle) : motive t todo := by
  induction hm : t.nodes.size using Nat.strong_induction_on generalizing t todo with
  | _ m smaller =>
    induction todo with
    | nil => exact done t
    | cons h rest shorter =>
      cases hn : t.nodes[h]? with
      | none => exact gone t h rest hn shorter
      | some n =>
        refine found t h n rest hn (smaller _ ?_ _ _ rfl)
        have hh : h ∈ t.nodes := mem_nodes_iff.2 ⟨n, hn⟩
        have hpos : t.nodes.size ≠ 0 := fun h0 => by
          simp [Std.ExtTreeMap.eq_empty_iff_size_eq_zero.2 h0] at hh
        simp only [without, Std.ExtTreeMap.size_erase, Std.ExtTreeMap.contains_iff_mem, hh, if_true]
        omega

theorem WellFormedBut.sweep (wf : t.WellFormedBut loose) : (t.sweep loose).2.WellFormed := by
  induction t, loose using sweep_induction with
  | done t =>
    rw [sweep_nil]
    exact wf
  | gone t h rest hh ih =>
    rw [sweep_of_none hh]
    exact ih (wf.of_cons hh)
  | found t h n rest hn ih =>
    rw [sweep_of_node hn]
    exact ih (wf.erase hn (erased_erase t h _))

theorem issued_sweep (t : Tree α) (todo : List Handle) : (t.sweep todo).2.issued = t.issued := by
  induction t, todo using sweep_induction with
  | done t => rw [sweep_nil]
  | gone t h rest hh ih => rw [sweep_of_none hh, ih]
  | found t h n rest hn ih =>
    rw [sweep_of_node hn]
    exact ih

/-- A node that is severed may be looked on as loose. -/
theorem Severed.loosened (hsevered : Severed h t t') (wf : t.WellFormed) : t'.WellFormedBut [h] :=
  { hsevered.wellFormed wf with
    linked := fun p k => by
      rw [(hsevered.wellFormed wf).linked, hsevered.parentOf?_eq]
      by_cases hk : k = h <;> simp [hk] }

/-- A node is severed before it is destroyed, so no child list is left with a link
to it. -/
theorem WellFormed.remove (wf : t.WellFormed) (tag : Tag) : (t.remove tag).2.WellFormed := by
  rw [Tree.remove]
  split
  · next h hh =>
    obtain ⟨t', ht', hsevered⟩ := wf.unlink_eq_ok (wf.mem_nodes_of_handle? hh)
    rw [ht']
    exact (hsevered.loosened wf).sweep
  · exact wf

/-- A command that changes a setting is an update of its subject. -/
theorem apply_of_setting [Scalar α] {c : Command α} {f : View α → View α}
    (hc : c.setting? = some f) (t : Tree α) : t.apply c = .ok (t.update c.subject f).2 := by
  cases c <;> cases hc <;> rfl

/-- A command that is not refused keeps a tree well-formed. -/
theorem WellFormed.apply [Scalar α] (wf : t.WellFormed) {c : Command α} (ht' : t.apply c = .ok t') :
    t'.WellFormed := by
  cases hc : c.setting? with
  | some f =>
    rw [apply_of_setting hc] at ht'
    exact Except.ok.inj ht' ▸
      wf.update c.subject (Command.tag_of_setting hc) (Command.z_of_setting hc)
  | none =>
    cases c with
    | create tag kind => exact wf.create ht'
    | insert tag parent index => exact wf.insert ht'
    | remove tag => exact Except.ok.inj ht' ▸ wf.remove tag
    | detach tag => exact Except.ok.inj ht' ▸ wf.detach tag
    | setZ tag z => exact Except.ok.inj ht' ▸ wf.setZ tag z
    | _ => cases hc

end Tree

end ViewHost
