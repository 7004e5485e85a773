import Mathlib.Logic.Relation
import ViewHost.Proofs.StableSort
import ViewHost.Tree.Basic

/-!
# Well-formed trees

The store, the tag table, the parent links, the child lists and the paint orders
say overlapping things, and the operations on a tree edit them one by one. A
tree is well-formed when they agree and no view is its own ancestor.

While a subtree is being destroyed its nodes go one after the other, and the
children of a destroyed node are left with a link to it until their turn comes.
The invariant is therefore stated up to a list of such loose nodes, which counts
as empty for a tree between two operations.
-/

namespace ViewHost.Tree

variable {α : Type} {t t' : Tree α} {h k p : Handle} {n q : Node α} {loose : List Handle}

/-! ## Views of the store -/

/-- The tag of the view at a handle. -/
def tagOf? (t : Tree α) (h : Handle) : Option Tag := t.nodes[h]?.map (·.view.tag)

/-- The parent of the node at a handle. -/
def parentOf? (t : Tree α) (h : Handle) : Option Handle := t.nodes[h]?.bind (·.parent)

/-- The children of the node at a handle in layout order. -/
def childrenOf (t : Tree α) (h : Handle) : List Handle := (t.nodes[h]?.map (·.children)).getD []

/-- The children of the node at a handle in paint order. -/
def paintedOf (t : Tree α) (h : Handle) : List Handle := (t.nodes[h]?.map (·.paintOrder)).getD []

/-- The z of the view at a handle. -/
def zOf (t : Tree α) (h : Handle) : Int := (t.nodes[h]?.map (·.view.z)).getD 0

/-- The node `p` is the parent of the node `h`. -/
def IsParent (t : Tree α) (p h : Handle) : Prop := t.parentOf? h = some p

theorem tagOf?_of_node (hn : t.nodes[h]? = some n) : t.tagOf? h = some n.view.tag := by
  simp [tagOf?, hn]

theorem parentOf?_of_node (hn : t.nodes[h]? = some n) : t.parentOf? h = n.parent := by
  simp [parentOf?, hn]

theorem childrenOf_of_node (hn : t.nodes[h]? = some n) : t.childrenOf h = n.children := by
  simp [childrenOf, hn]

theorem paintedOf_of_node (hn : t.nodes[h]? = some n) : t.paintedOf h = n.paintOrder := by
  simp [paintedOf, hn]

theorem zOf_of_node (hn : t.nodes[h]? = some n) : t.zOf h = n.view.z := by
  simp [zOf, hn]

theorem tagOf?_eq_some_iff {tag : Tag} :
    t.tagOf? h = some tag ↔ ∃ n, t.nodes[h]? = some n ∧ n.view.tag = tag :=
  Option.map_eq_some_iff

theorem parentOf?_eq_some_iff :
    t.parentOf? h = some p ↔ ∃ n, t.nodes[h]? = some n ∧ n.parent = some p :=
  Option.bind_eq_some_iff

theorem mem_childrenOf_iff :
    h ∈ t.childrenOf p ↔ ∃ q, t.nodes[p]? = some q ∧ h ∈ q.children := by
  cases hq : t.nodes[p]? with
  | none => simp [childrenOf, hq]
  | some q => simp [childrenOf, hq]

/-! ## Looking up after a change -/

@[simp] theorem nodes_put (t : Tree α) (h k : Handle) (n : Node α) :
    (t.put h n).nodes[k]? = if h = k then some n else t.nodes[k]? := by
  simp [put, Std.ExtTreeMap.getElem?_insert, Std.LawfulEqCmp.compare_eq_iff_eq]

theorem node_eq_ok (hn : t.nodes[h]? = some n) : t.node h = .ok n := by
  simp [node, hn]

theorem tagAt_eq_ok (hn : t.nodes[h]? = some n) : t.tagAt h = .ok n.view.tag := by
  rw [tagAt, node_eq_ok hn]
  rfl

@[simp] theorem ok_bind {β γ : Type} (b : β) (f : β → Except Fault γ) :
    (Except.ok b >>= f) = f b := rfl

@[simp] theorem intact_ok {β : Type} (d b : β) : intact d (.ok b) = b := rfl

/-- A list is mapped without a fault if each of its elements is. -/
theorem mapM_eq_ok {β γ : Type} {f : β → Except Fault γ} {g : β → γ} {xs : List β}
    (h : ∀ x ∈ xs, f x = .ok (g x)) : xs.mapM f = .ok (xs.map g) := by
  induction xs with
  | nil => rfl
  | cons x xs ih =>
    rw [List.mapM_cons, h x List.mem_cons_self, ih fun y hy => h y (List.mem_cons_of_mem x hy)]
    rfl

/-! ## The invariant -/

/-- The parts of a tree agree, except that the parents of the nodes in `loose`
need not know of them. -/
structure WellFormedBut (t : Tree α) (loose : List Handle) : Prop where
  issued : ∀ h ∈ t.nodes, h.index < t.issued
  tagged : ∀ tag h, t.handles[tag]? = some h ↔ t.tagOf? h = some tag
  linked : ∀ p h, h ∈ t.childrenOf p ↔ t.parentOf? h = some p ∧ h ∉ loose
  nodup : ∀ p, (t.childrenOf p).Nodup
  acyclic : ∀ h, ¬ Relation.TransGen t.IsParent h h
  painted : ∀ p, StablySorted t.zOf (t.childrenOf p) (t.paintedOf p)

/-- The parts of a tree agree. -/
def WellFormed (t : Tree α) : Prop := t.WellFormedBut []

theorem mem_nodes_iff : h ∈ t.nodes ↔ ∃ n, t.nodes[h]? = some n := by
  rw [Std.ExtTreeMap.mem_iff_isSome_getElem?, Option.isSome_iff_exists]

namespace WellFormedBut

theorem tag_inj (wf : t.WellFormedBut loose) {tag : Tag} (hh : t.tagOf? h = some tag)
    (hk : t.tagOf? k = some tag) : h = k :=
  Option.some.inj (((wf.tagged tag h).2 hh).symm.trans ((wf.tagged tag k).2 hk))

theorem ne_of_isParent (wf : t.WellFormedBut loose) (hp : t.IsParent p h) : p ≠ h := by
  rintro rfl
  exact wf.acyclic p (.single hp)

end WellFormedBut

namespace WellFormed

/-- Links lead to each other: a node is among the children of its parent. -/
theorem mem_childrenOf_iff (wf : t.WellFormed) : h ∈ t.childrenOf p ↔ t.parentOf? h = some p := by
  simpa using wf.linked p h

theorem node_of_mem_children (wf : t.WellFormed) (hq : t.nodes[p]? = some q)
    (hm : h ∈ q.children) : ∃ n, t.nodes[h]? = some n ∧ n.parent = some p :=
  parentOf?_eq_some_iff.1 (wf.mem_childrenOf_iff.1 (childrenOf_of_node hq ▸ hm))

theorem node_of_isParent (wf : t.WellFormed) (hp : t.IsParent p h) :
    ∃ q, t.nodes[p]? = some q ∧ h ∈ q.children :=
  Tree.mem_childrenOf_iff.1 (wf.mem_childrenOf_iff.2 hp)

end WellFormed

end ViewHost.Tree
