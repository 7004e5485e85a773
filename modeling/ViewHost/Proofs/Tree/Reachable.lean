import ViewHost.Proofs.Tree.Operations

/-!
# Reachable trees

A tree is reachable if commands lead to it from the empty one, whatever the
commands are and whether or not they are refused. Reachable trees are
well-formed, and on the way from one to the next no handle is issued that any
view has had before. To the outside, which knows views by their tags, this means that
children and parents are links between the same views, and that the children of
a view are painted in an order which their sequence and their z determine.
-/

namespace ViewHost.Tree

variable {α : Type}

section Reachable

variable [Scalar α]

/-- The tree after a command. A refused command changes nothing. -/
def after (t : Tree α) (c : Command α) : Tree α :=
  match t.apply c with
  | .ok t' => t'
  | .error _ => t

/-- Commands lead to the tree from the empty one. -/
inductive Reachable : Tree α → Prop where
  | empty : Reachable .empty
  | after {t : Tree α} (ht : Reachable t) (c : Command α) : Reachable (t.after c)

theorem Reachable.foldl {t : Tree α} (ht : t.Reachable) (cs : List (Command α)) :
    (cs.foldl Tree.after t).Reachable := by
  induction cs generalizing t with
  | nil => exact ht
  | cons c cs ih => exact ih (ht.after c)

theorem WellFormed.after {t : Tree α} (wf : t.WellFormed) (c : Command α) :
    (t.after c).WellFormed := by
  rw [Tree.after]
  split
  · next t' ht' => exact wf.apply ht'
  · exact wf

theorem Reachable.wellFormed {t : Tree α} (ht : t.Reachable) : t.WellFormed := by
  induction ht with
  | empty => exact .empty
  | after _ c ih => exact ih.after c

/-! ## Handles are issued once -/

/-- Handles are only ever added to those that have been issued. -/
theorem WellFormed.issued_le_apply {t t' : Tree α} (wf : t.WellFormed) {c : Command α}
    (ht' : t.apply c = .ok t') : t.issued ≤ t'.issued := by
  cases hc : c.setting? with
  | some f =>
    rw [apply_of_setting hc] at ht'
    cases ht'
    rw [Tree.update]
    split
    · next h hh =>
      obtain ⟨n, hn⟩ := mem_nodes_iff.1 (wf.mem_nodes_of_handle? hh)
      rw [node_eq_ok hn]
      exact Nat.le_refl _
    · exact Nat.le_refl _
  | none =>
    cases c with
    | create tag kind =>
      rw [Tree.apply, Tree.create] at ht'
      split at ht'
      · cases ht'
      · cases ht'
        exact Nat.le_succ _
    | insert tag parent index =>
      obtain ⟨h, p, -, -, -, m, -⟩ := wf.exists_moved ht'
      exact Nat.le_of_eq m.issued_eq.symm
    | remove tag =>
      cases ht'
      rw [Tree.remove]
      split
      · next h hh => rw [issued_sweep, wf.issued_unlink (wf.mem_nodes_of_handle? hh)]
      · exact Nat.le_refl _
    | detach tag =>
      cases ht'
      rw [Tree.detach]
      split
      · next h hh => rw [wf.issued_unlink (wf.mem_nodes_of_handle? hh)]
      · exact Nat.le_refl _
    | setZ tag z =>
      cases ht'
      cases hh : t.handle? tag with
      | none =>
        rw [Tree.setZ, hh]
      | some h =>
        obtain ⟨t₁, ht₁, hlifted⟩ := wf.setZ_eq hh z
        rw [ht₁]
        exact Nat.le_of_eq (Edited.issued hlifted).symm
    | _ => cases hc

theorem Reachable.issued_le_foldl {t : Tree α} (ht : t.Reachable) (cs : List (Command α)) :
    t.issued ≤ (cs.foldl Tree.after t).issued := by
  induction cs generalizing t with
  | nil => exact Nat.le_refl _
  | cons c cs ih =>
    refine Nat.le_trans ?_ (ih (ht.after c))
    rw [Tree.after]
    split
    · next t' ht' => exact ht.wellFormed.issued_le_apply ht'
    · exact Nat.le_refl _

/-- A new view gets a handle that no view has had before, not even one that is gone. -/
theorem Reachable.handle_fresh {t t' : Tree α} {h : Handle} {tag : Tag} {kind : ViewKind}
    (ht : t.Reachable) (hh : h ∈ t.nodes) (cs : List (Command α))
    (ht' : (cs.foldl Tree.after t).create tag kind = .ok t') : t'.handle? tag ≠ some h := by
  have hissued := ht.issued_le_foldl cs
  have hold := ht.wellFormed.issued h hh
  rw [Tree.create] at ht'
  split at ht'
  · cases ht'
  · cases ht'
    rw [handle?, Std.ExtTreeMap.getElem?_insert_self]
    rintro ⟨⟩
    exact absurd hold (Nat.not_lt.2 hissued)

end Reachable

variable {t : Tree α} {h k p : Handle} {n : Node α} {tag : Tag}

/-! ## By tag -/

/-- The tag of the view at a handle, which has to be in the store. -/
def tagOf (t : Tree α) (h : Handle) : Tag := (t.tagOf? h).getD default

/-- The z of the view with a tag, which has to be in the tree. -/
def zAt (t : Tree α) (tag : Tag) : Int := ((t.view? tag).map (·.z)).getD 0

theorem tagOf_of_node (hn : t.nodes[h]? = some n) : t.tagOf h = n.view.tag := by
  rw [tagOf, tagOf?_of_node hn, Option.getD_some]

theorem node?_eq (hh : t.handle? tag = some h) : t.node? tag = t.nodes[h]? := by
  rw [node?, hh]
  rfl

theorem view?_eq (hh : t.handle? tag = some h) (hn : t.nodes[h]? = some n) :
    t.view? tag = some n.view := by
  rw [view?, node?_eq hh, hn, Option.map_some]

theorem mapM_tagAt_eq_ok {hs : List Handle} (live : ∀ c ∈ hs, c ∈ t.nodes) :
    hs.mapM t.tagAt = .ok (hs.map t.tagOf) := by
  apply mapM_eq_ok
  intro c hc
  obtain ⟨n, hn⟩ := mem_nodes_iff.1 (live c hc)
  rw [tagAt_eq_ok hn, tagOf_of_node hn]

namespace WellFormed

theorem handle?_eq_some_iff (wf : t.WellFormed) :
    t.handle? tag = some h ↔ h ∈ t.nodes ∧ t.tagOf h = tag := by
  rw [handle?, wf.tagged, tagOf, mem_nodes_iff]
  constructor
  · intro htag
    obtain ⟨n, hn, -⟩ := tagOf?_eq_some_iff.1 htag
    exact ⟨⟨n, hn⟩, by rw [htag, Option.getD_some]⟩
  · rintro ⟨⟨n, hn⟩, htag⟩
    rwa [tagOf?_of_node hn, Option.getD_some, ← Option.some.injEq, ← tagOf?_of_node hn] at htag

theorem exists_node (wf : t.WellFormed) (hh : t.handle? tag = some h) :
    ∃ n, t.nodes[h]? = some n ∧ n.view.tag = tag :=
  tagOf?_eq_some_iff.1 ((wf.tagged tag h).1 hh)

theorem handle?_tagOf (wf : t.WellFormed) (hh : h ∈ t.nodes) :
    t.handle? (t.tagOf h) = some h :=
  wf.handle?_eq_some_iff.2 ⟨hh, rfl⟩

theorem mem_nodes_of_mem_childrenOf (wf : t.WellFormed) (hk : k ∈ t.childrenOf p) :
    k ∈ t.nodes :=
  mem_nodes_of_isParent (wf.mem_childrenOf_iff.1 hk)

theorem mem_paintedOf_iff (wf : t.WellFormed) : k ∈ t.paintedOf p ↔ k ∈ t.childrenOf p :=
  (wf.painted p).mem_iff

theorem children_eq (wf : t.WellFormed) (hh : t.handle? tag = some h) :
    t.children tag = (t.childrenOf h).map t.tagOf := by
  obtain ⟨n, hn, -⟩ := wf.exists_node hh
  have hmapM := mapM_tagAt_eq_ok fun c hc => wf.mem_nodes_of_mem_childrenOf (p := h) hc
  rw [childrenOf_of_node hn] at hmapM ⊢
  rw [children, node?_eq hh, hn]
  exact congrArg (intact []) hmapM

theorem paintedChildren_eq (wf : t.WellFormed) (hh : t.handle? tag = some h) :
    t.paintedChildren tag = (t.paintedOf h).map t.tagOf := by
  obtain ⟨n, hn, -⟩ := wf.exists_node hh
  have hmapM := mapM_tagAt_eq_ok fun c hc =>
    wf.mem_nodes_of_mem_childrenOf (p := h) (wf.mem_paintedOf_iff.1 hc)
  rw [paintedOf_of_node hn] at hmapM ⊢
  rw [paintedChildren, node?_eq hh, hn]
  exact congrArg (intact []) hmapM

theorem parent?_eq (wf : t.WellFormed) (hh : t.handle? tag = some h) :
    t.parent? tag = (t.parentOf? h).map t.tagOf := by
  obtain ⟨n, hn, -⟩ := wf.exists_node hh
  have hparent := parentOf?_of_node hn
  rw [parent?, node?_eq hh, hn, hparent]
  cases hp : n.parent with
  | none => simp [hp]
  | some p =>
    obtain ⟨q, hq⟩ := mem_nodes_iff.1 (wf.parent_mem_nodes (hparent.trans hp))
    simp only [Option.bind_eq_bind, Option.bind_some, hp, tagAt_eq_ok hq, Option.map_some,
      tagOf_of_node hq]
    rfl

theorem isParent_of_parent? (wf : t.WellFormed) {parent : Tag} (hh : t.handle? parent = some h)
    (hc : t.parent? tag = some parent) : ∃ k, t.handle? tag = some k ∧ t.IsParent h k := by
  cases hk : t.handle? tag with
  | none =>
    rw [parent?, node?, hk] at hc
    cases hc
  | some k =>
    rw [wf.parent?_eq hk, Option.map_eq_some_iff] at hc
    obtain ⟨p, hp, htag⟩ := hc
    have hparent := htag ▸ wf.handle?_tagOf (wf.parent_mem_nodes hp)
    cases hh.symm.trans hparent
    exact ⟨k, rfl, hp⟩

theorem zAt_tagOf (wf : t.WellFormed) (hh : h ∈ t.nodes) : t.zAt (t.tagOf h) = t.zOf h := by
  rw [zAt, view?, node?_eq (wf.handle?_tagOf hh), zOf, Option.map_map]
  rfl

/-- The tags of the children are painted in the order in which the children are. -/
theorem stablySorted_paintedChildren (wf : t.WellFormed) (tag : Tag) :
    StablySorted t.zAt (t.children tag) (t.paintedChildren tag) := by
  cases hh : t.handle? tag with
  | none =>
    simp only [children, paintedChildren, node?, hh]
    exact .nil
  | some h =>
    rw [wf.children_eq hh, wf.paintedChildren_eq hh]
    exact (wf.painted h).map fun c hc => wf.zAt_tagOf (wf.mem_nodes_of_mem_childrenOf hc)

end WellFormed

/-! ## The parts of a reachable tree -/

/-- The tag table and the store are inverse to each other; parents and children
link the same nodes, each child once, all of them in the store, and without a
cycle; and the children are painted in the stable order of their z. Two trees in
which a view has the same children with the same z therefore paint them alike,
whatever commands led to either. -/
theorem Reachable.parts_agree [Scalar α] {t : Tree α} (ht : t.Reachable) :
    (∀ tag h, t.handle? tag = some h ↔ ∃ n, t.nodes[h]? = some n ∧ n.view.tag = tag) ∧
    (∀ p k, k ∈ t.childrenOf p ↔ t.parentOf? k = some p) ∧
    (∀ p, (t.childrenOf p).Nodup) ∧
    (∀ h k, t.parentOf? h = some k ∨ k ∈ t.childrenOf h ∨ k ∈ t.paintedOf h → k ∈ t.nodes) ∧
    (∀ h, ¬ Relation.TransGen t.IsParent h h) ∧
    (∀ p, StablySorted t.zOf (t.childrenOf p) (t.paintedOf p)) ∧
    ∀ t' : Tree α, t'.Reachable → ∀ tag, t'.children tag = t.children tag →
      (∀ c ∈ t.children tag, t'.zAt c = t.zAt c) →
      t'.paintedChildren tag = t.paintedChildren tag := by
  have wf := ht.wellFormed
  refine ⟨fun tag h => ?_, fun p k => wf.mem_childrenOf_iff, wf.nodup, fun h k hk => ?_,
    wf.acyclic, wf.painted, fun t' ht' tag hchildren hz => ?_⟩
  · exact (wf.tagged tag h).trans tagOf?_eq_some_iff
  · rcases hk with hk | hk | hk
    · exact wf.parent_mem_nodes hk
    · exact wf.mem_nodes_of_mem_childrenOf hk
    · exact wf.mem_nodes_of_mem_childrenOf (wf.mem_paintedOf_iff.1 hk)
  · have hpainted' := ht'.wellFormed.stablySorted_paintedChildren tag
    rw [hchildren] at hpainted'
    have hpainted := (wf.stablySorted_paintedChildren tag).congr hz
    exact hpainted'.unique hpainted

/-- Two views under a third, the lower one lifted above the other at the end. -/
def liftedLast : Tree Rat :=
  [.create ⟨1⟩ .view, .create ⟨2⟩ .view, .create ⟨3⟩ .view, .insert ⟨2⟩ ⟨1⟩ 0,
    .insert ⟨3⟩ ⟨1⟩ 9, .setZ ⟨2⟩ 5].foldl Tree.after .empty

/-- The same views, the one lifted at the beginning and put before the other. -/
def liftedFirst : Tree Rat :=
  [.create ⟨3⟩ .view, .create ⟨2⟩ .view, .setZ ⟨2⟩ 5, .create ⟨1⟩ .view, .insert ⟨3⟩ ⟨1⟩ 0,
    .insert ⟨2⟩ ⟨1⟩ 0].foldl Tree.after .empty

/-- In both trees the lifted view comes first and is painted last. -/
theorem liftedFirst_paints_as_liftedLast :
    liftedLast.Reachable ∧ liftedFirst.Reachable ∧
    liftedLast.children ⟨1⟩ = [⟨2⟩, ⟨3⟩] ∧ liftedFirst.children ⟨1⟩ = [⟨2⟩, ⟨3⟩] ∧
    (∀ c ∈ liftedLast.children ⟨1⟩, liftedFirst.zAt c = liftedLast.zAt c) ∧
    liftedLast.paintedChildren ⟨1⟩ = [⟨3⟩, ⟨2⟩] ∧
    liftedFirst.paintedChildren ⟨1⟩ = [⟨3⟩, ⟨2⟩] := by
  have hlast : liftedLast.Reachable := Reachable.empty.foldl _
  have hfirst : liftedFirst.Reachable := Reachable.empty.foldl _
  have hchildren : liftedLast.children ⟨1⟩ = [⟨2⟩, ⟨3⟩] := by decide +kernel
  have hchildren' : liftedFirst.children ⟨1⟩ = [⟨2⟩, ⟨3⟩] := by decide +kernel
  have hz : ∀ c ∈ liftedLast.children ⟨1⟩, liftedFirst.zAt c = liftedLast.zAt c := by
    decide +kernel
  have hpainted : liftedLast.paintedChildren ⟨1⟩ = [⟨3⟩, ⟨2⟩] := by
    have hsorted := hlast.wellFormed.stablySorted_paintedChildren ⟨1⟩
    rw [hchildren] at hsorted
    exact hsorted.unique (.swap (by decide +kernel))
  have hsame : liftedFirst.paintedChildren ⟨1⟩ = liftedLast.paintedChildren ⟨1⟩ :=
    hlast.parts_agree.2.2.2.2.2.2 liftedFirst hfirst ⟨1⟩ (hchildren'.trans hchildren.symm) hz
  exact ⟨hlast, hfirst, hchildren, hchildren', hz, hpainted, hsame.trans hpainted⟩

end ViewHost.Tree
