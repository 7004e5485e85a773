import Mathlib.Data.Finset.Card
import ViewHost.Proofs.Tree.WellFormed

/-!
# Ancestors

The links of a well-formed tree have no cycle and its store is finite, so every
way up or down is shorter than the store is large. The size of the store is the
budget that every walk is given, which is why none runs out of it.
-/

namespace ViewHost.Tree

variable {α : Type} {t : Tree α} {h p stop : Handle} {n : Node α}

/-- The node `a` is the node `h` or lies above it. -/
def IsAncestor (t : Tree α) (a h : Handle) : Prop := Relation.ReflTransGen t.IsParent a h

/-- In a relation without cycles whose first components are finitely many, rank
elements by how many others lead to them. -/
theorem exists_rank {β : Type} {R : β → β → Prop} {s : Finset β} (mem : ∀ a b, R a b → a ∈ s)
    (acyclic : ∀ a, ¬ Relation.TransGen R a a) :
    ∃ rank : β → Nat, (∀ a b, R a b → rank a < rank b) ∧ ∀ b ∈ s, rank b < s.card := by
  classical
  refine ⟨fun b => (s.filter (Relation.TransGen R · b)).card, ?_, ?_⟩
  · intro a b hab
    apply Finset.card_lt_card
    rw [Finset.ssubset_iff_of_subset]
    · exact ⟨a, by simp [mem a b hab, Relation.TransGen.single hab], by simp [acyclic a]⟩
    · intro c hc
      rw [Finset.mem_filter] at hc ⊢
      exact ⟨hc.1, hc.2.tail hab⟩
  · intro b hb
    exact Finset.card_lt_card (Finset.filter_ssubset.2 ⟨b, hb, acyclic b⟩)

/-- The handles in the store. -/
def live (t : Tree α) : Finset Handle := t.nodes.keys.toFinset

theorem mem_live_iff : h ∈ t.live ↔ h ∈ t.nodes := by
  rw [live, List.mem_toFinset, Std.ExtTreeMap.mem_keys]

theorem card_live (t : Tree α) : t.live.card = t.size := by
  rw [live, List.toFinset_card_of_nodup Std.ExtTreeMap.nodup_keys, Std.ExtTreeMap.length_keys, size]

theorem mem_nodes_of_isParent (hp : t.IsParent p h) : h ∈ t.nodes := by
  obtain ⟨n, hn, -⟩ := parentOf?_eq_some_iff.1 hp
  exact mem_nodes_iff.2 ⟨n, hn⟩

/-- Of two nodes above a third, one is above the other. -/
theorem isAncestor_or_isAncestor {a b k : Handle} (ha : t.IsAncestor a k)
    (hb : t.IsAncestor b k) : t.IsAncestor a b ∨ t.IsAncestor b a := by
  have unique : Relator.RightUnique (Function.swap t.IsParent) := by
    intro k q q' hq hq'
    exact Option.some.inj (hq.symm.trans hq')
  exact (Relation.ReflTransGen.total_of_right_unique unique (Relation.reflTransGen_swap.2 ha)
    (Relation.reflTransGen_swap.2 hb)).symm.imp Relation.reflTransGen_swap.1
      Relation.reflTransGen_swap.1

theorem mem_nodes_of_isAncestor {a k : Handle} (ha : a ∈ t.nodes) (hk : t.IsAncestor a k) :
    k ∈ t.nodes := by
  cases hk with
  | refl => exact ha
  | tail _ hp => exact mem_nodes_of_isParent hp

namespace WellFormed

theorem parent_mem_nodes (wf : t.WellFormed) (hp : t.IsParent p h) : p ∈ t.nodes := by
  obtain ⟨q, hq, -⟩ := wf.node_of_isParent hp
  exact mem_nodes_iff.2 ⟨q, hq⟩

/-- Nodes have depths that ascend along the links. -/
theorem exists_depth (wf : t.WellFormed) :
    ∃ depth : Handle → Nat, (∀ p h, t.IsParent p h → depth p < depth h) ∧
      ∀ h ∈ t.nodes, depth h < t.size := by
  obtain ⟨depth, hlt, hsize⟩ := exists_rank (s := t.live)
    (fun p h hp => mem_live_iff.2 (wf.parent_mem_nodes hp)) wf.acyclic
  exact ⟨depth, hlt, fun h hh => card_live t ▸ hsize h (mem_live_iff.2 hh)⟩

/-- Nodes have heights that descend along the links. -/
theorem exists_height (wf : t.WellFormed) :
    ∃ height : Handle → Nat, (∀ p h, t.IsParent p h → height h < height p) ∧
      ∀ h ∈ t.nodes, height h < t.size := by
  have acyclic : ∀ h, ¬ Relation.TransGen (Function.swap t.IsParent) h h := fun h hc =>
    wf.acyclic h (Relation.transGen_swap.1 hc)
  obtain ⟨height, hlt, hsize⟩ := exists_rank (s := t.live)
    (fun h p hp => mem_live_iff.2 (mem_nodes_of_isParent hp)) acyclic
  exact ⟨height, fun p h hp => hlt h p hp, fun h hh => card_live t ▸ hsize h (mem_live_iff.2 hh)⟩

theorem climb_top (hs : h ≠ stop) (hn : t.nodes[h]? = some n) (hp : n.parent = none)
    (steps : Nat) : t.climb stop (steps + 1) h = .ok ⟨[n], false⟩ := by
  rw [climb, if_neg hs]
  simp only [node_eq_ok hn, ok_bind, hp]
  rfl

theorem climb_step (hs : h ≠ stop) (hn : t.nodes[h]? = some n) (hp : n.parent = some p)
    {steps : Nat} {way : Ascent α} (hway : t.climb stop steps p = .ok way) :
    t.climb stop (steps + 1) h = .ok ⟨n :: way.passed, way.arrived⟩ := by
  rw [climb, if_neg hs]
  simp only [node_eq_ok hn, ok_bind, hp, hway]
  rfl

/-- A walk up ends, and it arrives if it was meant to end at an ancestor. -/
theorem climb_eq_ok (wf : t.WellFormed) (stop : Handle) (hh : h ∈ t.nodes) :
    ∃ way, t.climb stop t.size h = .ok way ∧ (way.arrived ↔ t.IsAncestor stop h) := by
  obtain ⟨depth, hlt, hsize⟩ := wf.exists_depth
  have walk : ∀ steps h, h ∈ t.nodes → depth h < steps →
      ∃ way, t.climb stop steps h = .ok way ∧ (way.arrived ↔ t.IsAncestor stop h) := by
    intro steps
    induction steps with
    | zero => exact fun h _ hd => absurd hd (Nat.not_lt_zero _)
    | succ steps ih =>
      intro h hh hd
      by_cases hs : h = stop
      · subst hs
        exact ⟨⟨[], true⟩, by simp [climb], by simp [IsAncestor, Relation.ReflTransGen.refl]⟩
      · obtain ⟨n, hn⟩ := mem_nodes_iff.1 hh
        have hup : t.IsAncestor stop h ↔ ∃ p, t.IsAncestor stop p ∧ t.IsParent p h := by
          rw [IsAncestor, Relation.ReflTransGen.cases_tail_iff]
          exact or_iff_right hs
        simp only [hup, IsParent, parentOf?_of_node hn]
        cases hp : n.parent with
        | none => exact ⟨⟨[n], false⟩, climb_top hs hn hp steps, by simp⟩
        | some p =>
          have hph : t.IsParent p h := (parentOf?_of_node hn).trans hp
          obtain ⟨way, hway, harrived⟩ := ih p (wf.parent_mem_nodes hph)
            (Nat.lt_of_lt_of_le (hlt p h hph) (Nat.le_of_lt_succ hd))
          exact ⟨_, climb_step hs hn hp hway, by simp [harrived]⟩
  exact walk t.size h hh (hsize h hh)

/-! ## Branches -/

theorem not_isAncestor_of_isParent (wf : t.WellFormed) (hp : t.IsParent p h) :
    ¬ t.IsAncestor h p := by
  intro hc
  exact wf.acyclic p (.head' hp hc)

/-- No two children of a node have a descendant in common. -/
theorem eq_of_isAncestor (wf : t.WellFormed) {c c' k : Handle} (hc : t.IsParent p c)
    (hc' : t.IsParent p c') (hk : t.IsAncestor c k) (hk' : t.IsAncestor c' k) : c = c' := by
  -- if one child were above the other, it would be above their parent
  have above : ∀ {c c'}, t.IsParent p c → t.IsParent p c' → t.IsAncestor c c' → c = c' := by
    intro c c' hc hc' hcc'
    rcases Relation.ReflTransGen.cases_tail_iff .. |>.1 hcc' with heq | ⟨q, hcq, hq⟩
    · exact heq.symm
    · have hqp : q = p := Option.some.inj (hq.symm.trans hc')
      exact absurd (hqp ▸ hcq) (wf.not_isAncestor_of_isParent hc)
  rcases isAncestor_or_isAncestor hk hk' with hcc' | hcc'
  · exact above hc hc' hcc'
  · exact (above hc' hc hcc').symm

end WellFormed

/-! ## Subtrees of bounded depth -/

/-- The nodes at and below `h` are in the store, on at most so many levels. -/
def Fits (t : Tree α) : Nat → Handle → Prop
  | 0, _ => False
  | depth + 1, h => ∃ n, t.nodes[h]? = some n ∧ ∀ c ∈ n.children, t.Fits depth c

theorem WellFormed.fits_size (wf : t.WellFormed) (hh : h ∈ t.nodes) : t.Fits t.size h := by
  obtain ⟨height, hlt, hsize⟩ := wf.exists_height
  have fits : ∀ depth h, h ∈ t.nodes → height h < depth → t.Fits depth h := by
    intro depth
    induction depth with
    | zero => exact fun h _ hd => absurd hd (Nat.not_lt_zero _)
    | succ depth ih =>
      intro h hh hd
      obtain ⟨n, hn⟩ := mem_nodes_iff.1 hh
      refine ⟨n, hn, fun c hc => ?_⟩
      have hp : t.IsParent h c := wf.mem_childrenOf_iff.1 (childrenOf_of_node hn ▸ hc)
      exact ih c (mem_nodes_of_isParent hp)
        (Nat.lt_of_lt_of_le (hlt h c hp) (Nat.le_of_lt_succ hd))
  exact fits t.size h hh (hsize h hh)

end ViewHost.Tree
