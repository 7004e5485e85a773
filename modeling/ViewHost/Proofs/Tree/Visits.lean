import Mathlib
import ViewHost.Proofs.Tree.Checked
import ViewHost.Proofs.Tree.Walks

/-!
# How long walks take

A walk up goes to lesser depths with every step, so it is over after as many steps as there are
views. A walk down comes to the views of a subtree, and since no two children of a view have a
view below them in common, it comes to none of them twice. The same is true of the destruction
of a subtree, which changes the tree on its way: what has been destroyed is not in the store any
more, and what is still to be destroyed is.
-/

namespace ViewHost.Tree

variable {α : Type} {t t' : Tree α} {h k p r c stop : Handle} {n : Node α} {ns : List (Node α)}
variable {root tag : Tag} {arrived : Bool} {depth : Nat}

/-! ## Walks up -/

theorem Climbs.steps_le {level : Handle → Nat} (hway : t.Climbs stop h ns arrived)
    (hlevel : ∀ p h, t.IsParent p h → level p < level h) :
    (ns.length + if arrived then 1 else 0) ≤ level h + 1 := by
  induction hway with
  | here => exact Nat.le_add_left _ _
  | top => exact Nat.le_add_left _ _
  | step _ hn hp _ ih =>
    have hlt := hlevel _ _ ((parentOf?_of_node hn).trans hp)
    rw [List.length_cons]
    omega

theorem WellFormed.climb_steps_le (wf : t.WellFormed) (stop : Handle) (hh : h ∈ t.nodes) :
    ∃ way, t.climb stop t.size h = .ok way ∧ t.Climbs stop h way.passed way.arrived ∧
      way.passed.length + (if way.arrived then 1 else 0) ≤ t.size := by
  obtain ⟨level, hlevel, hsize⟩ := wf.exists_depth
  obtain ⟨way, hway, -⟩ := wf.climb_eq_ok stop hh
  have hclimbs := climbs_of_climb hway
  exact ⟨way, hway, hclimbs, Nat.le_trans (hclimbs.steps_le hlevel) (hsize h hh)⟩

/-! ## Searches -/

section Search

variable [Scalar α] {P : Vec2 α}

/-- Tries one after the other until something is found, and keeps what has been seen. -/
def firstSeen {β γ δ : Type} (f : β → Except Fault (Option γ × List δ)) :
    List β → Except Fault (Option γ × List δ)
  | [] => .ok (none, [])
  | x :: xs => do
    match ← f x with
    | (some c, seen) => return (some c, seen)
    | (none, seen) =>
      let (found, rest) ← firstSeen f xs
      return (found, seen ++ rest)

/-- A search that keeps a list of the nodes it comes to. -/
def searchSeen (t : Tree α) : Nat → Handle → Vec2 α → Except Fault (Option Handle × List Handle)
  | 0, _, _ => .error .endless
  | depth + 1, h, p => do
    let n ← t.node h
    if bars n.view p then return (none, [h])
    let (below, seen) ←
      if n.view.pointerEvents.allowsChildren then
        firstSeen (fun c => do
          match (← t.node c).view.localFromParent with
          | some toChild => t.searchSeen depth c (toChild.applyToPoint p)
          | none => return (none, [])) n.paintOrder.reverse
      else pure (none, [])
    match below with
    | some hit => return (some hit, h :: seen)
    | none => return (if hits n.view p then some h else none, h :: seen)

section

variable {β γ δ ε : Type}

theorem map_fst_bind {x : Except Fault (β × δ)} {y : Except Fault β} (hxy : Prod.fst <$> x = y)
    {f : β × δ → Except Fault (γ × ε)} {g : β → Except Fault γ}
    (hfg : ∀ b d, Prod.fst <$> f (b, d) = g b) : Prod.fst <$> (x >>= f) = y >>= g := by
  subst hxy
  cases x with
  | error e => rfl
  | ok b => exact hfg b.1 b.2

theorem map_fst_bind_left (x : Except Fault β) {f : β → Except Fault (γ × ε)}
    {g : β → Except Fault γ} (hfg : ∀ b, Prod.fst <$> f b = g b) :
    Prod.fst <$> (x >>= f) = x >>= g := by
  cases x with
  | error e => rfl
  | ok b => exact hfg b

theorem map_fst_firstSeen {f : β → Except Fault (Option γ × List δ)}
    {g : β → Except Fault (Option γ)} (hf : ∀ x, Prod.fst <$> f x = g x) (xs : List β) :
    Prod.fst <$> firstSeen f xs = xs.findSomeM? g := by
  induction xs with
  | nil => rfl
  | cons x xs ih =>
    rw [firstSeen, List.findSomeM?_cons]
    refine map_fst_bind (hf x) fun found seen => ?_
    cases found with
    | some c => rfl
    | none =>
      rw [← bind_pure (xs.findSomeM? g)]
      exact map_fst_bind ih fun _ _ => rfl

end

/-- To keep the list changes nothing else. -/
theorem map_fst_searchSeen (t : Tree α) (depth : Nat) (h : Handle) (p : Vec2 α) :
    Prod.fst <$> t.searchSeen depth h p = t.search depth h p := by
  induction depth generalizing h p with
  | zero => rfl
  | succ depth ih =>
    rw [searchSeen, search]
    refine map_fst_bind_left _ fun n => ?_
    by_cases hbars : bars n.view p
    · rw [if_pos hbars, if_pos hbars]
      rfl
    · rw [if_neg hbars, if_neg hbars]
      dsimp only
      by_cases hallows : n.view.pointerEvents.allowsChildren
      · rw [if_pos hallows, if_pos hallows]
        refine map_fst_bind (map_fst_firstSeen (fun c => map_fst_bind_left _ fun m => ?_) _)
          fun below seen => ?_
        · cases m.view.localFromParent with
          | none => rfl
          | some toChild => exact ih c _
        · cases below <;> rfl
      · rw [if_neg hallows, if_neg hallows]
        rfl

/-- What is searched is found or not without a fault, and what is seen meanwhile is seen once
and satisfies `P`. -/
def SeesOnce {γ δ : Type} (P : δ → Prop) (x : Except Fault (Option γ × List δ)) : Prop :=
  ∃ found seen, x = .ok (found, seen) ∧ seen.Nodup ∧ ∀ k ∈ seen, P k

theorem SeesOnce.mono {γ δ : Type} {P Q : δ → Prop} {x : Except Fault (Option γ × List δ)}
    (hx : SeesOnce P x) (hPQ : ∀ k, P k → Q k) : SeesOnce Q x := by
  obtain ⟨found, seen, hrun, hnodup, hseen⟩ := hx
  exact ⟨found, seen, hrun, hnodup, fun k hk => hPQ k (hseen k hk)⟩

/-- If those tried have nothing in common to be seen, nothing is seen twice. -/
theorem seesOnce_firstSeen {β γ δ : Type} {f : β → Except Fault (Option γ × List δ)}
    {Sees : β → δ → Prop} {xs : List β} (hnodup : xs.Nodup) (hf : ∀ x ∈ xs, SeesOnce (Sees x) (f x))
    (hapart : ∀ x ∈ xs, ∀ y ∈ xs, ∀ k, Sees x k → Sees y k → x = y) :
    SeesOnce (fun k => ∃ x ∈ xs, Sees x k) (firstSeen f xs) := by
  induction xs with
  | nil => exact ⟨none, [], rfl, .nil, fun k hk => absurd hk List.not_mem_nil⟩
  | cons x xs ih =>
    obtain ⟨hx, hnodup⟩ := List.nodup_cons.1 hnodup
    obtain ⟨found, seen, htried, hseen, hsees⟩ := hf x List.mem_cons_self
    obtain ⟨found', rest, hrest, hrestSeen, hrestSees⟩ := ih hnodup
      (fun y hy => hf y (List.mem_cons_of_mem x hy))
      fun y hy z hz => hapart y (List.mem_cons_of_mem x hy) z (List.mem_cons_of_mem x hz)
    rw [firstSeen, htried]
    cases found with
    | some c => exact ⟨some c, seen, rfl, hseen, fun k hk => ⟨x, List.mem_cons_self, hsees k hk⟩⟩
    | none =>
      refine ⟨found', seen ++ rest, by rw [hrest]; rfl, hseen.append hrestSeen ?_, ?_⟩
      · intro k hk hk'
        obtain ⟨y, hy, hyk⟩ := hrestSees k hk'
        cases hapart x List.mem_cons_self y (List.mem_cons_of_mem x hy) k (hsees k hk) hyk
        exact hx hy
      · intro k hk
        obtain hk | hk := List.mem_append.1 hk
        · exact ⟨x, List.mem_cons_self, hsees k hk⟩
        · obtain ⟨y, hy, hyk⟩ := hrestSees k hk
          exact ⟨y, List.mem_cons_of_mem x hy, hyk⟩

omit [Scalar α] in
/-- The node that a search comes to first, and what it sees below. -/
theorem SeesOnce.bind_below {γ : Type} {x : Except Fault (Option γ × List Handle)}
    {f : Option γ × List Handle → Except Fault (Option γ × List Handle)} (wf : t.WellFormed)
    (hx : SeesOnce (fun k => ∃ c, t.IsParent h c ∧ t.IsAncestor c k) x)
    (hf : ∀ found seen, ∃ found', f (found, seen) = .ok (found', h :: seen)) :
    SeesOnce (t.IsAncestor h) (x >>= f) := by
  obtain ⟨found, seen, rfl, hseen, hsees⟩ := hx
  obtain ⟨found', hfound⟩ := hf found seen
  refine ⟨found', h :: seen, hfound, List.nodup_cons.2 ⟨fun hmem => ?_, hseen⟩, fun k hk => ?_⟩
  · obtain ⟨c, hc, hanc⟩ := hsees h hmem
    exact wf.not_isAncestor_of_isParent hc hanc
  · obtain rfl | hk := List.mem_cons.1 hk
    · exact .refl
    · obtain ⟨c, hc, hanc⟩ := hsees k hk
      exact hanc.head hc

/-- A search comes to nodes of the subtree only, and to none of them twice. -/
theorem WellFormed.seesOnce_searchSeen (wf : t.WellFormed) (hf : t.Fits depth h) (p : Vec2 α) :
    SeesOnce (t.IsAncestor h) (t.searchSeen depth h p) := by
  induction depth generalizing h p with
  | zero => exact absurd hf id
  | succ depth ih =>
    obtain ⟨n, hn, fits⟩ := hf
    rw [searchSeen, node_eq_ok hn, ok_bind]
    by_cases hbars : bars n.view p
    · rw [if_pos hbars]
      exact ⟨none, [h], rfl, List.nodup_singleton h, fun k hk => List.mem_singleton.1 hk ▸ .refl⟩
    rw [if_neg hbars]
    dsimp only
    have finish : ∀ below seen, ∃ found, (match below with
        | some hit => pure (some hit, h :: seen)
        | none => pure (if hits n.view p then some h else none, h :: seen)) =
          (Except.ok (found, h :: seen) : Except Fault (Option Handle × List Handle)) := by
      intro below seen
      cases below <;> exact ⟨_, rfl⟩
    by_cases hallows : n.view.pointerEvents.allowsChildren
    · rw [if_pos hallows]
      have hchild : ∀ c ∈ n.paintOrder.reverse, t.IsParent h c := by
        intro c hc
        rw [List.mem_reverse, ← paintedOf_of_node hn] at hc
        exact wf.isParent_of_mem_paintedOf hc
      have hnodup : n.paintOrder.reverse.Nodup := by
        rw [List.nodup_reverse, ← paintedOf_of_node hn]
        exact (wf.painted h).perm.nodup_iff.2 (wf.nodup h)
      refine SeesOnce.bind_below wf ?_ finish
      have hapart : ∀ c ∈ n.paintOrder.reverse, ∀ d ∈ n.paintOrder.reverse, ∀ k,
          t.IsAncestor c k → t.IsAncestor d k → c = d := fun c hc d hd k =>
        wf.eq_of_isAncestor (hchild c hc) (hchild d hd)
      refine (seesOnce_firstSeen hnodup (fun c hc => ?_) hapart).mono
        fun k ⟨c, hc, hanc⟩ => ⟨c, hchild c hc, hanc⟩
      obtain ⟨m, hm⟩ := mem_nodes_iff.1 (mem_nodes_of_isParent (hchild c hc))
      rw [node_eq_ok hm, ok_bind]
      cases m.view.localFromParent with
      | none => exact ⟨none, [], rfl, .nil, fun k hk => absurd hk List.not_mem_nil⟩
      | some toChild =>
        have hmem : c ∈ n.children := by
          rw [← childrenOf_of_node hn]
          exact wf.mem_childrenOf_iff.2 (hchild c hc)
        exact ih (fits c hmem) _
    · rw [if_neg hallows]
      refine SeesOnce.bind_below wf ⟨none, [], rfl, .nil, ?_⟩ finish
      exact fun k hk => absurd hk List.not_mem_nil

end Search

/-! ## Outlines -/

/-- The nodes at and below a node on so many levels, in layout order. -/
def descent (t : Tree α) : Nat → Handle → List Handle
  | 0, _ => []
  | depth + 1, h => h :: (t.childrenOf h).flatMap (t.descent depth)

namespace WellFormed

theorem isAncestor_of_mem_descent (wf : t.WellFormed) (hk : k ∈ t.descent depth h) :
    t.IsAncestor h k := by
  induction depth generalizing h with
  | zero => exact absurd hk List.not_mem_nil
  | succ depth ih =>
    obtain rfl | hk := List.mem_cons.1 hk
    · exact .refl
    · obtain ⟨c, hc, hk⟩ := List.mem_flatMap.1 hk
      exact (ih hk).head (wf.mem_childrenOf_iff.1 hc)

theorem nodup_descent (wf : t.WellFormed) (depth : Nat) (h : Handle) :
    (t.descent depth h).Nodup := by
  induction depth generalizing h with
  | zero => exact .nil
  | succ depth ih =>
    refine List.nodup_cons.2 ⟨fun hmem => ?_, List.nodup_flatMap.2 ⟨fun c _ => ih c, ?_⟩⟩
    · obtain ⟨c, hc, hk⟩ := List.mem_flatMap.1 hmem
      exact wf.not_isAncestor_of_isParent (wf.mem_childrenOf_iff.1 hc)
        (wf.isAncestor_of_mem_descent hk)
    · refine (wf.nodup h).imp_of_mem fun {c d} hc hd hne k hck hdk => hne ?_
      exact wf.eq_of_isAncestor (wf.mem_childrenOf_iff.1 hc) (wf.mem_childrenOf_iff.1 hd)
        (wf.isAncestor_of_mem_descent hck) (wf.isAncestor_of_mem_descent hdk)

end WellFormed

/-- An outline begins with the node itself, and the outlines of its children follow. -/
theorem outlineAt_succ {below : Handle → List (Nat × View α)} {level : Nat}
    (hn : t.nodes[h]? = some n)
    (hbelow : ∀ c ∈ n.children, t.outlineAt depth (level + 1) c = .ok (below c)) :
    t.outlineAt (depth + 1) level h = .ok ((level, n.view) :: n.children.flatMap below) := by
  rw [outlineAt, node_eq_ok hn, ok_bind, mapM_eq_ok hbelow, List.flatMap_def]
  rfl

/-- An outline has a line for each node at and below the root. -/
theorem outlineAt_eq_ok (hf : t.Fits depth h) (level : Nat) :
    ∃ lines, t.outlineAt depth level h = .ok lines ∧
      lines.map (·.2.tag) = (t.descent depth h).map t.tagOf := by
  induction depth generalizing h level with
  | zero => exact absurd hf id
  | succ depth ih =>
    obtain ⟨n, hn, fits⟩ := hf
    let below (c : Handle) := intact [] (t.outlineAt depth (level + 1) c)
    have hbelow : ∀ c ∈ n.children, t.outlineAt depth (level + 1) c = .ok (below c) ∧
        (below c).map (·.2.tag) = (t.descent depth c).map t.tagOf := by
      intro c hc
      obtain ⟨lines, hlines, htags⟩ := ih (fits c hc) (level + 1)
      simp only [below, hlines, intact_ok]
      exact ⟨trivial, htags⟩
    refine ⟨_, outlineAt_succ hn fun c hc => (hbelow c hc).1, ?_⟩
    rw [descent, childrenOf_of_node hn, List.map_cons, List.map_cons, tagOf_of_node hn,
      List.map_flatMap, List.map_flatMap]
    exact congrArg (_ :: ·) (List.flatMap_congr fun c hc => (hbelow c hc).2)

/-! ## Destruction -/

/-- The handles that are taken off the list, one after the other, until it is empty. Where
there is a node, it is destroyed and its children are put on the list. -/
inductive Sweeps : Tree α → List Handle → List Handle → Nat × Tree α → Prop where
  | done (t : Tree α) : Sweeps t [] [] (0, t)
  | gone {t : Tree α} {h : Handle} {rest seen : List Handle} {out : Nat × Tree α}
      (hh : t.nodes[h]? = none) (hrest : Sweeps t rest seen out) :
      Sweeps t (h :: rest) (h :: seen) out
  | found {t : Tree α} {h : Handle} {n : Node α} {rest seen : List Handle} {out : Nat × Tree α}
      (hn : t.nodes[h]? = some n)
      (hrest : Sweeps (t.without h n.view.tag) (n.children.reverse ++ rest) seen out) :
      Sweeps t (h :: rest) (h :: seen) (out.1 + 1, out.2)

theorem exists_sweeps (t : Tree α) (todo : List Handle) :
    ∃ seen, Sweeps t todo seen (t.sweep todo) := by
  induction t, todo using sweep_induction with
  | done t =>
    rw [sweep_nil]
    exact ⟨[], .done t⟩
  | gone t h rest hh ih =>
    obtain ⟨seen, hrest⟩ := ih
    rw [sweep_of_none hh]
    exact ⟨h :: seen, .gone hh hrest⟩
  | found t h n rest hn ih =>
    obtain ⟨seen, hrest⟩ := ih
    rw [sweep_of_node hn]
    exact ⟨h :: seen, .found hn hrest⟩

theorem Erased.mem_nodes_iff (e : Erased h tag t t') : k ∈ t'.nodes ↔ k ≠ h ∧ k ∈ t.nodes := by
  rw [Tree.mem_nodes_iff, Tree.mem_nodes_iff, e.nodes]
  by_cases hk : h = k
  · simp [hk]
  · simp [hk, Ne.symm hk]

/-- A list of handles that are all in the store, none of them twice. -/
structure Listed (t : Tree α) (todo : List Handle) : Prop where
  live : ∀ h ∈ todo, h ∈ t.nodes
  nodup : todo.Nodup

section Found

variable {rest : List Handle} (wf : t.WellFormedBut (h :: rest)) (hn : t.nodes[h]? = some n)

include wf hn

theorem WellFormedBut.isParent_of_mem_children (hc : c ∈ n.children) :
    t.IsParent h c ∧ c ∉ h :: rest := (wf.linked h c).1 (childrenOf_of_node hn ▸ hc)

/-- The children of a node that is destroyed come to stand on the list. -/
theorem Listed.found (hlist : t.Listed (h :: rest)) :
    (t.without h n.view.tag).Listed (n.children.reverse ++ rest) := by
  have e : Erased h n.view.tag t (t.without h n.view.tag) := erased_erase t h _
  obtain ⟨hrest, hnodup⟩ := List.nodup_cons.1 hlist.nodup
  constructor
  · intro k hk
    rw [e.mem_nodes_iff]
    obtain hk | hk := List.mem_append.1 hk
    · obtain ⟨hp, hnot⟩ := wf.isParent_of_mem_children hn (List.mem_reverse.1 hk)
      exact ⟨List.ne_of_not_mem_cons hnot, mem_nodes_of_isParent hp⟩
    · exact ⟨ne_of_mem_of_not_mem hk hrest, hlist.live k (List.mem_cons_of_mem h hk)⟩
  · refine (List.nodup_reverse.2 (childrenOf_of_node hn ▸ wf.nodup h)).append hnodup ?_
    intro k hk hk'
    obtain ⟨-, hnot⟩ := wf.isParent_of_mem_children hn (List.mem_reverse.1 hk)
    exact hnot (List.mem_cons_of_mem h hk')

end Found

/-- Whatever is taken off the list is still there to be destroyed. -/
theorem Sweeps.seen {todo seen : List Handle} {out : Nat × Tree α} (hs : t.Sweeps todo seen out)
    (wf : t.WellFormedBut todo) (hlist : t.Listed todo) :
    t.Listed seen ∧ (∀ k ∈ seen, ∃ a ∈ todo, t.IsAncestor a k) ∧ out.1 = seen.length := by
  induction hs with
  | done t => exact ⟨hlist, fun k hk => absurd hk List.not_mem_nil, rfl⟩
  | gone hh _ _ =>
    obtain ⟨n, hn⟩ := mem_nodes_iff.1 (hlist.live _ List.mem_cons_self)
    cases hh.symm.trans hn
  | @found t h n rest seen out hn _ ih =>
    have e : Erased h n.view.tag t (t.without h n.view.tag) := erased_erase t h _
    obtain ⟨hseen, hbelow, hcount⟩ := ih (wf.erase hn e) (hlist.found wf hn)
    have hback := fun k hk => e.mem_nodes_iff.1 (hseen.live k hk)
    refine ⟨⟨?_, ?_⟩, ?_, congrArg (· + 1) hcount⟩
    · exact List.forall_mem_cons.2 ⟨mem_nodes_iff.2 ⟨n, hn⟩, fun k hk => (hback k hk).2⟩
    · exact List.nodup_cons.2 ⟨fun hmem => (hback h hmem).1 rfl, hseen.nodup⟩
    · intro k hk
      obtain rfl | hk := List.mem_cons.1 hk
      · exact ⟨k, List.mem_cons_self, .refl⟩
      obtain ⟨a, ha, hanc⟩ := hbelow k hk
      have hanc : t.IsAncestor a k :=
        Relation.ReflTransGen.mono (fun _ _ => e.isParent) _ _ hanc
      obtain ha | ha := List.mem_append.1 ha
      · obtain ⟨hp, -⟩ := wf.isParent_of_mem_children hn (List.mem_reverse.1 ha)
        exact ⟨h, List.mem_cons_self, hanc.head hp⟩
      · exact ⟨a, List.mem_cons_of_mem h ha, hanc⟩

/-! ## Trees that commands lead to -/

namespace WellFormed

theorem checked_outline (wf : t.WellFormed) (root : Tag) :
    Checked.outline t root = .ok (t.outline root) := by
  refine wf.atTag_eq_ok (fun hr => ?_) fun r n hr hn => ?_
  · rw [outline, hr]
  · obtain ⟨lines, hlines, -⟩ := outlineAt_eq_ok (wf.fits_size (mem_nodes_iff.2 ⟨n, hn⟩)) 0
    rw [outline, hr]
    dsimp only
    rw [hlines, intact_ok]

/-- An outline comes to the nodes of a subtree. -/
theorem map_outline (wf : t.WellFormed) (hr : t.handle? root = some r) :
    (t.outline root).map (·.2.tag) = (t.descent t.size r).map t.tagOf := by
  obtain ⟨lines, hlines, htags⟩ := outlineAt_eq_ok (wf.fits_size (wf.mem_nodes_of_handle? hr)) 0
  rw [outline, hr]
  dsimp only
  rw [hlines, intact_ok, htags]

/-- To destroy a view is to come to the nodes of a subtree. -/
theorem remove_sweeps (wf : t.WellFormed) (hr : t.handle? root = some r) :
    ∃ there t₁ seen, t.unlink r = .ok (there, t₁) ∧ t₁.Sweeps [r] seen (t.remove root) ∧
      seen.Nodup ∧ (∀ k ∈ seen, t.IsAncestor r k) ∧ (t.remove root).1 = seen.length := by
  have hlive := wf.mem_nodes_of_handle? hr
  obtain ⟨t₁, ht₁, hsevered⟩ := wf.unlink_eq_ok hlive
  obtain ⟨seen, hsweeps⟩ := exists_sweeps t₁ [r]
  have hlist : t₁.Listed [r] := by
    refine ⟨fun k hk => ?_, List.nodup_singleton r⟩
    rw [List.mem_singleton.1 hk]
    exact (Edited.mem_nodes_iff hsevered).2 hlive
  have hremove : t₁.sweep [r] = t.remove root := by
    rw [Tree.remove, hr]
    dsimp only
    rw [ht₁, intact_ok]
  obtain ⟨hseen, hbelow, hcount⟩ := hsweeps.seen (hsevered.loosened wf) hlist
  refine ⟨_, t₁, seen, ht₁, hremove ▸ hsweeps, hseen.nodup, fun k hk => ?_, hremove ▸ hcount⟩
  obtain ⟨a, ha, hanc⟩ := hbelow k hk
  cases List.mem_singleton.1 ha
  exact Relation.ReflTransGen.mono (fun _ _ hp => (hsevered.isParent_iff.1 hp).1) _ _ hanc

end WellFormed

/-- No operation meets a handle that is not in the store or goes on for longer than it may. A
walk up looks at no more nodes than there are. A search, a destruction and an outline come to
nodes of the subtree that they are about, and to none of them twice. -/
theorem Reachable.walks_end [Scalar α] (ht : t.Reachable) :
    ((∀ c, Checked.apply t c = .ok (t.apply c)) ∧
      (∀ tag, Checked.node t tag = .ok (t.node? tag) ∧
        Checked.parent t tag = .ok (t.parent? tag) ∧
        Checked.children t tag = .ok (t.children tag) ∧
        Checked.paintedChildren t tag = .ok (t.paintedChildren tag) ∧
        Checked.outline t tag = .ok (t.outline tag)) ∧
      (∀ root tag, Checked.ascent t root tag = .ok (t.ascent root tag)) ∧
      ∀ p root, Checked.hitTest t p root = .ok (t.hitTest p root)) ∧
    (∀ stop h, h ∈ t.nodes → ∃ way, t.climb stop t.size h = .ok way ∧
      t.Climbs stop h way.passed way.arrived ∧
      way.passed.length + (if way.arrived then 1 else 0) ≤ t.size) ∧
    ∀ root r, t.handle? root = some r →
      (∀ p, ∃ hit seen, t.search t.size r p = .ok hit ∧
        t.searchSeen t.size r p = .ok (hit, seen) ∧ seen.Nodup ∧ ∀ k ∈ seen, t.IsAncestor r k) ∧
      (∃ there t₁ seen, t.unlink r = .ok (there, t₁) ∧ t₁.Sweeps [r] seen (t.remove root) ∧
        seen.Nodup ∧ (∀ k ∈ seen, t.IsAncestor r k) ∧ (t.remove root).1 = seen.length) ∧
      ∃ seen : List Handle, (t.outline root).map (·.2.tag) = seen.map t.tagOf ∧ seen.Nodup ∧
        ∀ k ∈ seen, t.IsAncestor r k := by
  have wf := ht.wellFormed
  refine ⟨⟨wf.checked_apply, fun tag => ⟨wf.checked_node tag, wf.checked_parent tag,
    wf.checked_children tag, wf.checked_paintedChildren tag, wf.checked_outline tag⟩,
    wf.checked_ascent, wf.checked_hitTest⟩, fun stop h => wf.climb_steps_le stop,
    fun root r hr => ⟨fun p => ?_, wf.remove_sweeps hr, ?_⟩⟩
  · have hfits := wf.fits_size (wf.mem_nodes_of_handle? hr)
    obtain ⟨hit, seen, hrun, hnodup, hseen⟩ := wf.seesOnce_searchSeen hfits p
    refine ⟨hit, seen, ?_, hrun, hnodup, hseen⟩
    rw [← map_fst_searchSeen, hrun]
    rfl
  · exact ⟨t.descent t.size r, wf.map_outline hr, wf.nodup_descent _ r, fun k hk =>
      wf.isAncestor_of_mem_descent hk⟩

/-- The flat view is destroyed with the one in it, and both are come to once. -/
theorem flattened_walks_end : flattened.Reachable ∧
    Checked.hitTest flattened ⟨40, 40⟩ ⟨1⟩ = .ok (some ⟨2⟩) ∧
    ∃ there t₁ seen, flattened.unlink ⟨2⟩ = .ok (there, t₁) ∧
      t₁.Sweeps [⟨2⟩] seen (flattened.remove ⟨3⟩) ∧ seen.Nodup ∧ seen.length = 2 := by
  have hreach : flattened.Reachable := ((Reachable.empty.foldl _).foldl _).foldl _
  have hhit : flattened.hitTest ⟨40, 40⟩ ⟨1⟩ = some ⟨2⟩ := by cbv
  have hflat : flattened.handle? ⟨3⟩ = some ⟨2⟩ := by cbv
  have hcount : (flattened.remove ⟨3⟩).1 = 2 := by cbv
  obtain ⟨⟨-, -, -, hhits⟩, -, hdown⟩ := hreach.walks_end
  obtain ⟨-, ⟨there, t₁, seen, ht₁, hsweeps, hnodup, -, hlength⟩, -⟩ := hdown ⟨3⟩ ⟨2⟩ hflat
  exact ⟨hreach, (hhits _ _).trans (congrArg _ hhit), there, t₁, seen, ht₁, hsweeps, hnodup,
    hlength.symm.trans hcount⟩

end ViewHost.Tree
