import ViewHost.Proofs.Tree.Ancestry

/-!
# Edits of links

An edit of links changes the nodes of a tree where they are. For each kind of
edit there is a function that says what becomes of a node: `Node.severed` for
taking a node off its parent, `Node.grafted` for hanging it under another and
`Node.lifted` for another z. Each of them keeps a tree well-formed, the second
one because a node is never hung under itself or under what lies below it.
-/

namespace ViewHost

variable {α : Type}

namespace Node

/-- The node at `k` once the node `h` is taken off its parent. -/
def severed (n : Node α) (h k : Handle) : Node α :=
  { n with
    parent := if k = h then none else n.parent
    children := n.children.filter (· ≠ h)
    paintOrder := n.paintOrder.filter (· ≠ h) }

/-- The node at `k` once the node `h` hangs under `p`, where handles have the
given z. -/
def grafted (n : Node α) (h p : Handle) (index : Nat) (z : Handle → Int) (k : Handle) : Node α :=
  let children := n.children.take index ++ h :: n.children.drop index
  { n with
    parent := if k = h then some p else n.parent
    children := if k = p then children else n.children
    paintOrder := if k = p then Tree.byZ (children.map fun c => (c, z c)) else n.paintOrder }

/-- The node at `k` once the view of the node `h`, whose parent is `p`, has
another z. -/
def lifted (n : Node α) (h : Handle) (p : Option Handle) (z : Handle → Int) (k : Handle) :
    Node α :=
  { n with
    view := if k = h then { n.view with z := z h } else n.view
    paintOrder := if p = some k then Tree.byZ (n.children.map fun c => (c, z c)) else n.paintOrder }

end Node

namespace Tree

variable {t t' : Tree α} {h k p : Handle} {n q : Node α}

/-- `t'` is `t` with the node at each handle changed. -/
structure Edited (f : Handle → Node α → Node α) (t t' : Tree α) : Prop where
  issued : t'.issued = t.issued
  handles : t'.handles = t.handles
  nodes : ∀ k, t'.nodes[k]? = t.nodes[k]?.map (f k)

namespace Edited

variable {f : Handle → Node α → Node α}

theorem mem_nodes_iff (e : Edited f t t') : h ∈ t'.nodes ↔ h ∈ t.nodes := by
  rw [Std.ExtTreeMap.mem_iff_isSome_getElem?, Std.ExtTreeMap.mem_iff_isSome_getElem?, e.nodes,
    Option.isSome_map]

theorem tagOf?_eq (e : Edited f t t') (hf : ∀ k n, (f k n).view.tag = n.view.tag) :
    t'.tagOf? = t.tagOf? := by
  funext k
  simp [tagOf?, e.nodes, Function.comp_def, hf]

theorem zOf_eq (e : Edited f t t') (hf : ∀ k n, (f k n).view.z = n.view.z) :
    t'.zOf = t.zOf := by
  funext k
  simp [zOf, e.nodes, Function.comp_def, hf]

theorem parentOf?_eq (e : Edited f t t') (k : Handle) :
    t'.parentOf? k = t.nodes[k]?.bind fun n => (f k n).parent := by
  simp [parentOf?, e.nodes, Option.bind_map]

theorem childrenOf_eq (e : Edited f t t') (k : Handle) :
    t'.childrenOf k = (t.nodes[k]?.map fun n => (f k n).children).getD [] := by
  simp [childrenOf, e.nodes, Function.comp_def]

theorem paintedOf_eq (e : Edited f t t') (k : Handle) :
    t'.paintedOf k = (t.nodes[k]?.map fun n => (f k n).paintOrder).getD [] := by
  simp [paintedOf, e.nodes, Function.comp_def]

theorem size_eq (e : Edited f t t') : t'.size = t.size := by
  have hlive : t'.live = t.live := by
    ext k
    rw [mem_live_iff, mem_live_iff, e.mem_nodes_iff]
  rw [← card_live, ← card_live, hlive]

/-- An edit that leaves tags and links alone has to get the paint orders right and
nothing else. -/
theorem wellFormed (e : Edited f t t') (wf : t.WellFormed)
    (htag : ∀ k n, (f k n).view.tag = n.view.tag) (hparent : ∀ k n, (f k n).parent = n.parent)
    (hchildren : ∀ k n, (f k n).children = n.children)
    (hpainted : ∀ k n, t.nodes[k]? = some n →
      StablySorted t'.zOf n.children (f k n).paintOrder) : t'.WellFormed := by
  have hp : t'.parentOf? = t.parentOf? := by
    funext k
    rw [e.parentOf?_eq, parentOf?]
    simp only [hparent]
  have hc : t'.childrenOf = t.childrenOf := by
    funext k
    rw [e.childrenOf_eq, childrenOf]
    simp only [hchildren]
  refine ⟨fun k hk => ?_, fun tag k => ?_, fun p k => ?_, fun p => ?_, fun k => ?_, fun p => ?_⟩
  · exact e.issued ▸ wf.issued k (e.mem_nodes_iff.1 hk)
  · rw [e.handles, e.tagOf?_eq htag, wf.tagged]
  · rw [hc, hp, wf.linked]
  · rw [hc]
    exact wf.nodup p
  · rw [show t'.IsParent = t.IsParent from funext₂ fun p k => by rw [IsParent, IsParent, hp]]
    exact wf.acyclic k
  · rw [hc, e.paintedOf_eq, childrenOf]
    cases hn : t.nodes[p]? with
    | none => exact .nil
    | some n => exact hpainted p n hn

end Edited

theorem edited_put (hn : t.nodes[h]? = some n) (g : Node α → Node α) :
    Edited (fun k m => if k = h then g m else m) t (t.put h (g n)) where
  issued := rfl
  handles := rfl
  nodes k := by
    rw [nodes_put]
    by_cases hk : h = k
    · subst hk
      simp [hn]
    · cases t.nodes[k]? <;> simp [hk, Ne.symm hk]

theorem byZ_stablySorted (z : Handle → Int) (hs : List Handle) :
    StablySorted z hs (byZ (hs.map fun c => (c, z c))) := by
  have hkey : ∀ a ∈ hs.map fun c => (c, z c), z a.1 = a.2 := by simp
  simpa [byZ, Function.comp_def] using (StablySorted.mergeSort Prod.snd _).map hkey

/-! ## Taking a node off its parent -/

/-- `t'` is `t` with the node `h` taken off its parent. -/
def Severed (h : Handle) : Tree α → Tree α → Prop := Edited fun k n => n.severed h k

namespace Severed

theorem parentOf?_eq (e : Severed h t t') (k : Handle) :
    t'.parentOf? k = if k = h then none else t.parentOf? k := by
  rw [Edited.parentOf?_eq e, parentOf?]
  by_cases hk : k = h
  · cases t.nodes[k]? <;> simp [Node.severed, hk]
  · cases t.nodes[k]? <;> simp [Node.severed, hk]

theorem childrenOf_eq (e : Severed h t t') (k : Handle) :
    t'.childrenOf k = (t.childrenOf k).filter (· ≠ h) := by
  rw [Edited.childrenOf_eq e, childrenOf]
  cases t.nodes[k]? <;> simp [Node.severed]

theorem paintedOf_eq (e : Severed h t t') (k : Handle) :
    t'.paintedOf k = (t.paintedOf k).filter (· ≠ h) := by
  rw [Edited.paintedOf_eq e, paintedOf]
  cases t.nodes[k]? <;> simp [Node.severed]

theorem zOf_eq (e : Severed h t t') : t'.zOf = t.zOf := Edited.zOf_eq e fun _ _ => rfl

theorem isParent_iff (e : Severed h t t') : t'.IsParent p k ↔ t.IsParent p k ∧ k ≠ h := by
  rw [IsParent, IsParent, e.parentOf?_eq]
  by_cases hk : k = h <;> simp [hk]

theorem wellFormed (e : Severed h t t') (wf : t.WellFormed) : t'.WellFormed where
  issued k hk := e.issued ▸ wf.issued k (Edited.mem_nodes_iff e |>.1 hk)
  tagged tag k := by
    rw [e.handles, Edited.tagOf?_eq e fun _ _ => rfl, wf.tagged]
  linked p k := by
    rw [e.childrenOf_eq, e.parentOf?_eq, List.mem_filter, wf.mem_childrenOf_iff]
    by_cases hk : k = h <;> simp [hk]
  nodup p := by
    rw [e.childrenOf_eq]
    exact (wf.nodup p).filter _
  acyclic k hc := wf.acyclic k (hc.lift id fun _ _ hp => (e.isParent_iff.1 hp).1)
  painted p := by
    rw [e.childrenOf_eq, e.paintedOf_eq, e.zOf_eq]
    exact (wf.painted p).filter _

end Severed

/-! ## Hanging a node under another -/

/-- `t'` is `t` with the node `h` hung under `p`. -/
def Grafted (h p : Handle) (index : Nat) (t t' : Tree α) : Prop :=
  Edited (fun k n => n.grafted h p index t.zOf k) t t'

/-- One more step closes no cycle unless there was a way back from its end to its
beginning. -/
theorem acyclic_of_step {β : Type} {R R' : β → β → Prop} {a b : β}
    (step : ∀ x y, R' x y → R x y ∨ x = a ∧ y = b) (acyclic : ∀ x, ¬ Relation.TransGen R x x)
    (hab : ¬ Relation.ReflTransGen R b a) (x : β) : ¬ Relation.TransGen R' x x := by
  have split : ∀ {x y}, Relation.TransGen R' x y → Relation.TransGen R x y ∨
      Relation.ReflTransGen R x a ∧ Relation.ReflTransGen R b y := by
    intro x y hxy
    induction hxy with
    | single hs =>
      rcases step _ _ hs with hs | ⟨rfl, rfl⟩
      · exact .inl (.single hs)
      · exact .inr ⟨.refl, .refl⟩
    | tail _ hs ih =>
      rcases step _ _ hs with hs | ⟨rfl, rfl⟩
      · rcases ih with ih | ⟨hxa, hby⟩
        · exact .inl (ih.tail hs)
        · exact .inr ⟨hxa, hby.tail hs⟩
      · rcases ih with ih | ⟨_, hby⟩
        · exact .inr ⟨ih.to_reflTransGen, .refl⟩
        · exact absurd hby hab
  intro hx
  rcases split hx with hx | ⟨hxa, hbx⟩
  · exact acyclic x hx
  · exact hab (hbx.trans hxa)

theorem insert_perm (hs : List Handle) (h : Handle) (index : Nat) :
    (hs.take index ++ h :: hs.drop index).Perm (h :: hs) := by
  simpa only [List.take_append_drop] using
    (List.perm_middle : (hs.take index ++ h :: hs.drop index).Perm _)

namespace Grafted

variable {index : Nat}

theorem parentOf?_eq (e : Grafted h p index t t') (hh : h ∈ t.nodes) (k : Handle) :
    t'.parentOf? k = if k = h then some p else t.parentOf? k := by
  obtain ⟨n, hn⟩ := mem_nodes_iff.1 hh
  rw [Edited.parentOf?_eq e, parentOf?]
  by_cases hk : k = h
  · subst hk
    simp [hn, Node.grafted]
  · cases t.nodes[k]? <;> simp [Node.grafted, hk]

theorem childrenOf_eq (e : Grafted h p index t t') (hp : p ∈ t.nodes) (k : Handle) :
    t'.childrenOf k = if k = p then (t.childrenOf p).take index ++ h :: (t.childrenOf p).drop index
      else t.childrenOf k := by
  obtain ⟨q, hq⟩ := mem_nodes_iff.1 hp
  rw [Edited.childrenOf_eq e]
  by_cases hk : k = p
  · subst hk
    simp [childrenOf, hq, Node.grafted]
  · rw [if_neg hk, childrenOf]
    cases t.nodes[k]? <;> simp [Node.grafted, hk]

theorem zOf_eq (e : Grafted h p index t t') : t'.zOf = t.zOf := Edited.zOf_eq e fun _ _ => rfl

theorem painted (e : Grafted h p index t t') (wf : t.WellFormed) (hp : p ∈ t.nodes) (k : Handle) :
    StablySorted t'.zOf (t'.childrenOf k) (t'.paintedOf k) := by
  rw [e.childrenOf_eq hp, e.zOf_eq, Edited.paintedOf_eq e]
  by_cases hk : k = p
  · subst hk
    obtain ⟨q, hq⟩ := mem_nodes_iff.1 hp
    simpa [hq, childrenOf, Node.grafted] using byZ_stablySorted t.zOf
      (q.children.take index ++ h :: q.children.drop index)
  · have hold := wf.painted k
    rw [if_neg hk]
    rw [paintedOf] at hold
    cases hn : t.nodes[k]? with
    | none => simpa [hn] using hold
    | some n => simpa [hn, Node.grafted, hk] using hold

theorem wellFormed (e : Grafted h p index t t') (wf : t.WellFormed) (hh : h ∈ t.nodes)
    (hp : p ∈ t.nodes) (htop : t.parentOf? h = none) (hnot : ¬ t.IsAncestor h p) :
    t'.WellFormed where
  issued k hk := e.issued ▸ wf.issued k (Edited.mem_nodes_iff e |>.1 hk)
  tagged tag k := by
    rw [e.handles, Edited.tagOf?_eq e fun _ _ => rfl, wf.tagged]
  linked r k := by
    have hperm := (insert_perm (t.childrenOf p) h index).mem_iff (a := k)
    rw [e.childrenOf_eq hp, e.parentOf?_eq hh]
    by_cases hk : k = h
    · subst hk
      by_cases hr : r = p
      · simp [hr]
      · simp [hr, wf.mem_childrenOf_iff, htop, Ne.symm hr]
    · by_cases hr : r = p
      · subst hr
        rw [if_pos rfl, hperm, List.mem_cons, or_iff_right hk, wf.mem_childrenOf_iff, if_neg hk]
        simp
      · simp [hr, hk, wf.mem_childrenOf_iff]
  nodup r := by
    rw [e.childrenOf_eq hp]
    by_cases hr : r = p
    · rw [if_pos hr, (insert_perm _ _ _).nodup_iff, List.nodup_cons]
      exact ⟨by simp [wf.mem_childrenOf_iff, htop], wf.nodup p⟩
    · rw [if_neg hr]
      exact wf.nodup r
  acyclic := by
    refine acyclic_of_step (a := p) (b := h) (fun r k hk => ?_) wf.acyclic hnot
    rw [IsParent, e.parentOf?_eq hh] at hk
    by_cases hkh : k = h
    · rw [if_pos hkh] at hk
      exact .inr ⟨(Option.some.inj hk).symm, hkh⟩
    · rw [if_neg hkh] at hk
      exact .inl hk
  painted := e.painted wf hp

end Grafted

/-! ## Moving a node -/

/-- `t'` is `t` with the node `h` taken off its parent and hung under `p`. -/
structure Moved (h p : Handle) (index : Nat) (t t' : Tree α) : Prop where
  live : h ∈ t.nodes
  liveParent : p ∈ t.nodes
  edits : ∃ t₁, Severed h t t₁ ∧ Grafted h p index t₁ t'

namespace Moved

variable {index : Nat} (m : Moved h p index t t')

include m

theorem issued_eq : t'.issued = t.issued := by
  obtain ⟨t₁, hsevered, hgrafted⟩ := m.edits
  exact (Edited.issued hgrafted).trans (Edited.issued hsevered)

theorem handles_eq : t'.handles = t.handles := by
  obtain ⟨t₁, hsevered, hgrafted⟩ := m.edits
  exact (Edited.handles hgrafted).trans (Edited.handles hsevered)

theorem size_eq : t'.size = t.size := by
  obtain ⟨t₁, hsevered, hgrafted⟩ := m.edits
  exact (Edited.size_eq hgrafted).trans (Edited.size_eq hsevered)

theorem view_eq (k : Handle) : t'.nodes[k]?.map (·.view) = t.nodes[k]?.map (·.view) := by
  obtain ⟨t₁, hsevered, hgrafted⟩ := m.edits
  rw [Edited.nodes hgrafted, Edited.nodes hsevered, Option.map_map, Option.map_map]
  rfl

theorem tagOf?_eq : t'.tagOf? = t.tagOf? := by
  obtain ⟨t₁, hsevered, hgrafted⟩ := m.edits
  exact (Edited.tagOf?_eq hgrafted fun _ _ => rfl).trans (Edited.tagOf?_eq hsevered fun _ _ => rfl)

theorem parentOf?_eq (k : Handle) :
    t'.parentOf? k = if k = h then some p else t.parentOf? k := by
  obtain ⟨t₁, hsevered, hgrafted⟩ := m.edits
  rw [hgrafted.parentOf?_eq ((Edited.mem_nodes_iff hsevered).2 m.live), hsevered.parentOf?_eq]
  by_cases hk : k = h
  · rw [if_pos hk, if_pos hk]
  · rw [if_neg hk, if_neg hk, if_neg hk]

/-- The index counts the other children only. -/
theorem childrenOf_eq (k : Handle) :
    t'.childrenOf k =
      if k = p then
        ((t.childrenOf p).filter (· ≠ h)).take index ++
          h :: ((t.childrenOf p).filter (· ≠ h)).drop index
      else (t.childrenOf k).filter (· ≠ h) := by
  obtain ⟨t₁, hsevered, hgrafted⟩ := m.edits
  rw [hgrafted.childrenOf_eq ((Edited.mem_nodes_iff hsevered).2 m.liveParent),
    hsevered.childrenOf_eq, hsevered.childrenOf_eq]

theorem paintedOf_eq (hk : k ≠ p) : t'.paintedOf k = (t.paintedOf k).filter (· ≠ h) := by
  obtain ⟨t₁, hsevered, hgrafted⟩ := m.edits
  rw [← hsevered.paintedOf_eq, Edited.paintedOf_eq hgrafted, paintedOf]
  cases t₁.nodes[k]? <;> simp [Node.grafted, hk]

end Moved

/-! ## Another z -/

/-- `t'` is `t` with another z for the view of the node `h`. -/
def Lifted (h : Handle) (z : Int) (t t' : Tree α) : Prop :=
  Edited (fun k n => n.lifted h (t.parentOf? h) (Function.update t.zOf h z) k) t t'

namespace Lifted

variable {z : Int}

theorem zOf_eq (e : Lifted h z t t') (hh : h ∈ t.nodes) : t'.zOf = Function.update t.zOf h z := by
  obtain ⟨n, hn⟩ := mem_nodes_iff.1 hh
  funext k
  rw [zOf, e.nodes]
  by_cases hk : k = h
  · subst hk
    simp [hn, Node.lifted]
  · rw [Function.update_of_ne hk, zOf]
    cases t.nodes[k]? <;> simp [Node.lifted, hk]

/-- No other node than the parent has the lifted one among its children. -/
theorem wellFormed (e : Lifted h z t t') (wf : t.WellFormed) (hh : h ∈ t.nodes) :
    t'.WellFormed := by
  refine Edited.wellFormed e wf (fun k n => ?_) (fun _ _ => rfl) (fun _ _ => rfl)
    fun k n hn => ?_
  · simp only [Node.lifted]
    split <;> rfl
  · rw [e.zOf_eq hh, Node.lifted]
    by_cases hk : t.parentOf? h = some k
    · simp only [hk, if_true]
      exact byZ_stablySorted _ _
    · simp only [if_neg hk]
      have hpainted := wf.painted k
      rw [childrenOf_of_node hn, paintedOf_of_node hn] at hpainted
      refine hpainted.congr fun c hc => Function.update_of_ne ?_ _ _
      rintro rfl
      exact hk (wf.mem_childrenOf_iff.1 (childrenOf_of_node hn ▸ hc))

end Lifted

end Tree

end ViewHost
