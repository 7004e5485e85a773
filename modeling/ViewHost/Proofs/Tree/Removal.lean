import ViewHost.Proofs.Tree.Path

/-!
# What a removal destroys

A removal goes through a list of nodes to destroy, to which the children of each are added. It
comes to no node but those of the subtree, since children are found in it. And it leaves none of
them, because the tree that is left is well-formed: a node of the subtree that was there still
would have a parent that is there still, up to the view that was to be removed.
-/

namespace ViewHost.Tree

variable {α : Type} {t t' : Tree α} {h k : Handle} {n : Node α} {todo : List Handle} {tag : Tag}

/-- A sweep changes no node that it leaves. -/
theorem nodes_sweep (t : Tree α) (todo : List Handle) (k : Handle) :
    (t.sweep todo).2.nodes[k]? = none ∨ (t.sweep todo).2.nodes[k]? = t.nodes[k]? := by
  induction t, todo using sweep_induction with
  | done t =>
    rw [sweep_nil]
    exact .inr rfl
  | gone t h rest hh ih =>
    rw [sweep_of_none hh]
    exact ih
  | found t h n rest hn ih =>
    have e : Erased h n.view.tag t (t.without h n.view.tag) := erased_erase t h _
    rw [sweep_of_node hn]
    by_cases hk : h = k
    · rw [e.nodes, if_pos hk, or_self] at ih
      exact .inl ih
    · rw [e.nodes, if_neg hk] at ih
      exact ih

/-- What is on the list is destroyed. -/
theorem nodes_sweep_of_mem (hk : k ∈ todo) : (t.sweep todo).2.nodes[k]? = none := by
  induction t, todo using sweep_induction with
  | done t => cases hk
  | gone t h rest hh ih =>
    rw [sweep_of_none hh]
    obtain rfl | hk := List.mem_cons.1 hk
    · have hgone := nodes_sweep t rest k
      rwa [hh, or_self] at hgone
    · exact ih hk
  | found t h n rest hn ih =>
    have e : Erased h n.view.tag t (t.without h n.view.tag) := erased_erase t h _
    rw [sweep_of_node hn]
    obtain rfl | hk := List.mem_cons.1 hk
    · have hgone := nodes_sweep (t.without k n.view.tag) (n.children.reverse ++ rest) k
      rwa [e.nodes, if_pos rfl, or_self] at hgone
    · exact ih (List.mem_append_right _ hk)

/-- What is not below anything on the list is left. -/
theorem WellFormedBut.nodes_sweep_of_not_isAncestor (wf : t.WellFormedBut todo)
    (hk : ∀ a ∈ todo, ¬ t.IsAncestor a k) : (t.sweep todo).2.nodes[k]? = t.nodes[k]? := by
  induction t, todo using sweep_induction with
  | done t => rw [sweep_nil]
  | gone t h rest hh ih =>
    rw [sweep_of_none hh]
    exact ih (wf.of_cons hh) fun a ha => hk a (List.mem_cons_of_mem h ha)
  | found t h n rest hn ih =>
    have e : Erased h n.view.tag t (t.without h n.view.tag) := erased_erase t h _
    have hne : h ≠ k := by
      rintro rfl
      exact hk h List.mem_cons_self .refl
    rw [sweep_of_node hn]
    refine (ih (wf.erase hn e) fun a ha hanc => ?_).trans (by rw [e.nodes, if_neg hne])
    have hanc : t.IsAncestor a k := Relation.ReflTransGen.mono (fun _ _ => e.isParent) _ _ hanc
    rcases List.mem_append.1 ha with ha | ha
    · have hparent := (wf.linked h a).1 (childrenOf_of_node hn ▸ List.mem_reverse.1 ha)
      exact hk h List.mem_cons_self (hanc.head hparent.1)
    · exact hk a (List.mem_cons_of_mem h ha) hanc

namespace WellFormed

theorem exists_sweep_of_remove (wf : t.WellFormed) (hh : t.handle? tag = some h) :
    ∃ t₁, Severed h t t₁ ∧ t.remove tag = t₁.sweep [h] := by
  obtain ⟨t₁, ht₁, hsevered⟩ := wf.unlink_eq_ok (wf.mem_nodes_of_handle? hh)
  refine ⟨t₁, hsevered, ?_⟩
  rw [Tree.remove, hh]
  simp only [ht₁, intact_ok]

/-- A node outside the subtree is only taken note of as the parent of what is removed. -/
theorem nodes_remove_of_not_isAncestor (wf : t.WellFormed) (hh : t.handle? tag = some h)
    (hk : ¬ t.IsAncestor h k) :
    (t.remove tag).2.nodes[k]? = t.nodes[k]?.map (·.severed h k) := by
  obtain ⟨t₁, hsevered, heq⟩ := wf.exists_sweep_of_remove hh
  rw [heq, (hsevered.loosened wf).nodes_sweep_of_not_isAncestor, hsevered.nodes]
  intro a ha hanc
  cases List.mem_singleton.1 ha
  exact hk (Relation.ReflTransGen.mono (fun _ _ hp => (hsevered.isParent_iff.1 hp).1) _ _ hanc)

/-- No node of the subtree is left. -/
theorem nodes_remove_of_isAncestor (wf : t.WellFormed) (hh : t.handle? tag = some h)
    (hk : t.IsAncestor h k) : (t.remove tag).2.nodes[k]? = none := by
  have wf' := wf.remove tag
  obtain ⟨t₁, hsevered, heq⟩ := wf.exists_sweep_of_remove hh
  rw [heq] at wf' ⊢
  induction hk with
  | refl => exact nodes_sweep_of_mem List.mem_cons_self
  | @tail p c hp hpc ih =>
    refine (nodes_sweep t₁ [h] c).resolve_right fun hleft => ?_
    have hne : c ≠ h := by
      rintro rfl
      exact wf.not_isAncestor_of_isParent hpc hp
    -- the parent of a node that is left would be left
    have hparent : (t₁.sweep [h]).2.IsParent p c := by
      rw [IsParent, parentOf?, hleft]
      exact hsevered.isParent_iff.2 ⟨hpc, hne⟩
    obtain ⟨q, hq⟩ := mem_nodes_iff.1 (wf'.parent_mem_nodes hparent)
    rw [ih] at hq
    cases hq

/-- No view of the subtree is left. What bears a tag after the removal bore it before. -/
theorem contains_remove_of_isAncestor (wf : t.WellFormed) {x : Tag} (hh : t.handle? tag = some h)
    (hx : t.handle? x = some k) (hk : t.IsAncestor h k) : (t.remove tag).2.contains x = false := by
  rw [← Bool.not_eq_true, (wf.remove tag).contains_iff]
  rintro ⟨l, hlive, htag⟩
  obtain ⟨n, hn⟩ := mem_nodes_iff.1 hlive
  by_cases hl : t.IsAncestor h l
  · cases (wf.nodes_remove_of_isAncestor hh hl).symm.trans hn
  rw [tagOf_of_node hn] at htag
  rw [wf.nodes_remove_of_not_isAncestor hh hl, Option.map_eq_some_iff] at hn
  obtain ⟨m, hm, rfl⟩ := hn
  have hold := wf.handle?_eq_some_iff.2 ⟨mem_nodes_iff.2 ⟨m, hm⟩, (tagOf_of_node hm).trans htag⟩
  cases hx.symm.trans hold
  exact hl hk

end WellFormed

end ViewHost.Tree
