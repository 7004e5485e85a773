import ViewHost.Proofs.Tree.InPlace
import ViewHost.Proofs.Tree.Leaving
import ViewHost.Proofs.Tree.Locality

/-!
# What an insertion does

To put a view under another one is to move its node, which takes two edits: the node is taken off
its parent and then hung under the new one. What becomes of the links is read off both edits
together, first for nodes and then for the tags that the outside knows them by. A node put back
where it was has its old links again, and since the paint orders follow from them, the tree is the
same as before.
-/

namespace ViewHost.Tree

variable {α : Type} {t t' : Tree α} {h k p : Handle} {index : Nat} {tag parent x : Tag}

/-! ## Places in a list -/

section Places

variable {β : Type}

theorem insertIdx_min (xs : List β) (i : Nat) (x : β) :
    xs.insertIdx (min i xs.length) x = xs.take i ++ x :: xs.drop i := by
  induction xs generalizing i with
  | nil => simp
  | cons y xs ih =>
    cases i with
    | zero => rfl
    | succ i => simp [Nat.add_min_add_right, ih]

/-- What is taken out of a list and put back where it was leaves the list as it was. -/
theorem take_append_drop_filter_ne [DecidableEq β] {xs : List β} {x : β} {i : Nat}
    (hxs : xs.Nodup) (hx : xs[i]? = some x) :
    (xs.filter (· ≠ x)).take i ++ x :: (xs.filter (· ≠ x)).drop i = xs := by
  obtain ⟨hi, rfl⟩ := List.getElem?_eq_some_iff.1 hx
  have herase : xs.filter (· ≠ xs[i]) = xs.eraseIdx i := by
    rw [← hxs.erase_getElem i hi, hxs.erase_eq_filter]
    simp [bne, BEq.beq]
  have hle : i ≤ (xs.eraseIdx i).length := by
    rw [List.length_eraseIdx_of_lt hi]
    omega
  rw [herase, ← insertIdx_min, Nat.min_eq_left hle, List.insertIdx_eraseIdx_getElem]

end Places

/-! ## Moved nodes -/

/-- Links and settings make up the tree: the paint orders follow from them. -/
theorem WellFormed.eq_of_links (wf : t.WellFormed) (wf' : t'.WellFormed)
    (hissued : t'.issued = t.issued) (hhandles : t'.handles = t.handles)
    (hview : ∀ k : Handle, t'.nodes[k]?.map (·.view) = t.nodes[k]?.map (·.view))
    (hparent : ∀ k, t'.parentOf? k = t.parentOf? k)
    (hchildren : ∀ k, t'.childrenOf k = t.childrenOf k) : t' = t := by
  have hz : t'.zOf = t.zOf := by
    funext k
    have hz := congrArg (fun v => (v.map (·.z)).getD 0) (hview k)
    simpa only [zOf, Option.map_map, Function.comp_def] using hz
  have hpainted : ∀ k, t'.paintedOf k = t.paintedOf k := by
    intro k
    have hsorted := wf'.painted k
    rw [hz, hchildren] at hsorted
    exact hsorted.unique (wf.painted k)
  have hnodes : t'.nodes = t.nodes := by
    refine Std.ExtTreeMap.ext_getElem? fun k => ?_
    have hview := hview k
    cases hn : t.nodes[k]? with
    | none => simpa [hn] using hview
    | some n =>
      rw [hn, Option.map_some, Option.map_eq_some_iff] at hview
      obtain ⟨n', hn', hview⟩ := hview
      have hparent := hparent k
      have hchildren := hchildren k
      have hpainted := hpainted k
      rw [parentOf?_of_node hn', parentOf?_of_node hn] at hparent
      rw [childrenOf_of_node hn', childrenOf_of_node hn] at hchildren
      rw [paintedOf_of_node hn', paintedOf_of_node hn] at hpainted
      rw [hn']
      cases n
      cases n'
      simp_all
  cases t
  cases t'
  simp_all

/-- A node that is put back where it was. -/
theorem Moved.eq_self (m : Moved h p index t t') (wf : t.WellFormed) (wf' : t'.WellFormed)
    (hplace : (t.childrenOf p)[index]? = some h) : t' = t := by
  have hparent : t.IsParent p h := wf.mem_childrenOf_iff.1 (List.mem_of_getElem? hplace)
  refine wf.eq_of_links wf' m.issued_eq m.handles_eq m.view_eq (fun k => ?_) fun k => ?_
  · rw [m.parentOf?_eq]
    by_cases hk : k = h
    · rw [if_pos hk, hk]
      exact hparent.symm
    · rw [if_neg hk]
  · rw [m.childrenOf_eq]
    by_cases hk : k = p
    · subst hk
      rw [if_pos rfl, take_append_drop_filter_ne (wf.nodup k) hplace]
    · rw [if_neg hk]
      refine filter_ne_eq_self fun hmem => hk ?_
      exact Option.some.inj ((wf.mem_childrenOf_iff.1 hmem).symm.trans hparent)

/-! ## By tag -/

namespace Moved

variable (m : Moved h p index t t') (wf : t.WellFormed) (wf' : t'.WellFormed)
variable (hh : t.handle? tag = some h) (hp : t.handle? parent = some p)

include m

theorem tagOf_eq : t'.tagOf = t.tagOf := by
  funext k
  rw [tagOf, tagOf, m.tagOf?_eq]

theorem handle?_eq (x : Tag) : t'.handle? x = t.handle? x := by
  rw [handle?, handle?, m.handles_eq]

theorem view?_eq (x : Tag) : t'.view? x = t.view? x := by
  rw [view?, view?, node?, node?, m.handle?_eq]
  cases t.handle? x with
  | none => rfl
  | some k => exact m.view_eq k

include wf wf' hh hp

theorem parent?_eq (x : Tag) : t'.parent? x = if x = tag then some parent else t.parent? x := by
  cases hx : t.handle? x with
  | none =>
    have hne : x ≠ tag := by
      rintro rfl
      cases hx.symm.trans hh
    rw [if_neg hne, (shows_of_handle?_eq_none ((m.handle?_eq x).trans hx)).2.1,
      (shows_of_handle?_eq_none hx).2.1]
  | some k =>
    rw [wf'.parent?_eq ((m.handle?_eq x).trans hx), wf.parent?_eq hx, m.parentOf?_eq, m.tagOf_eq]
    have hiff : k = h ↔ x = tag := by
      constructor
      · rintro rfl
        exact (wf.handle?_eq_some_iff.1 hx).2.symm.trans (wf.handle?_eq_some_iff.1 hh).2
      · rintro rfl
        exact Option.some.inj (hx.symm.trans hh)
    by_cases hk : k = h
    · rw [if_pos hk, if_pos (hiff.1 hk), Option.map_some, (wf.handle?_eq_some_iff.1 hp).2]
    · rw [if_neg hk, if_neg (mt hiff.2 hk)]

/-- Every view but the new parent loses the one that is moved, if it had it. -/
theorem children_eq (hx : x ≠ parent) :
    t'.children x = (t.children x).filter (· ≠ tag) ∧
      t'.paintedChildren x = (t.paintedChildren x).filter (· ≠ tag) := by
  cases hk : t.handle? x with
  | none =>
    obtain ⟨-, -, hchildren, hpainted⟩ := shows_of_handle?_eq_none hk
    obtain ⟨-, -, hchildren', hpainted'⟩ := shows_of_handle?_eq_none ((m.handle?_eq x).trans hk)
    rw [hchildren, hchildren', hpainted, hpainted']
    exact ⟨rfl, rfl⟩
  | some k =>
    have hne : k ≠ p := by
      rintro rfl
      exact hx ((wf.handle?_eq_some_iff.1 hk).2.symm.trans (wf.handle?_eq_some_iff.1 hp).2)
    refine wf.children_eq_filter wf' hh hk ((m.handle?_eq x).trans hk)
      (fun c _ => by rw [m.tagOf_eq]) ?_ (m.paintedOf_eq hne)
    rw [m.childrenOf_eq, if_neg hne]

/-- The view comes to stand in its place among the others. -/
theorem children_parent_eq :
    let others := (t.children parent).filter (· ≠ tag)
    t'.children parent = others.insertIdx (min index others.length) tag := by
  intro others
  have hothers : others = ((t.childrenOf p).filter (· ≠ h)).map t.tagOf := by
    rw [wf.map_tagOf_filter_ne hh fun c hc => wf.mem_nodes_of_mem_childrenOf hc,
      ← wf.children_eq hp]
  rw [insertIdx_min, wf'.children_eq ((m.handle?_eq parent).trans hp), m.childrenOf_eq, if_pos rfl,
    m.tagOf_eq, List.map_append, List.map_cons, (wf.handle?_eq_some_iff.1 hh).2, List.map_take,
    List.map_drop, hothers]

end Moved

/-- A view is put where it is. -/
theorem WellFormed.insert_in_place (wf : t.WellFormed)
    (hplace : (t.children parent)[index]? = some tag) : t.insert tag parent index = .ok t := by
  have hmem : tag ∈ t.children parent := List.mem_of_getElem? hplace
  cases hp : t.handle? parent with
  | none => simp [(shows_of_handle?_eq_none hp).2.2.1] at hmem
  | some p =>
    rw [wf.children_eq hp, List.getElem?_map, Option.map_eq_some_iff] at hplace
    obtain ⟨h, hplace, rfl⟩ := hplace
    have hparent : t.IsParent p h := wf.mem_childrenOf_iff.1 (List.mem_of_getElem? hplace)
    have hh := wf.handle?_tagOf (mem_nodes_of_isParent hparent)
    -- a child has its parent above it, so there is no cycle to refuse
    have hnot := mt (wf.within_iff hh hp).1 (wf.not_isAncestor_of_isParent hparent)
    obtain ⟨t', ht'⟩ := wf.insert_of_not_within (exists_handle_iff.2 ⟨h, hh⟩)
      (exists_handle_iff.2 ⟨p, hp⟩) hnot index
    obtain ⟨h', p', hh', hp', -, m, wf'⟩ := wf.exists_moved ht'
    cases hh.symm.trans hh'
    cases hp.symm.trans hp'
    rw [ht', m.eq_self wf wf' hplace]

/-- An insertion succeeds if and only if both views exist and the new parent is neither the view
nor below it. The view then stands among the other children of the new parent where it should, or
last if there are fewer of them, and is painted among them by its z; the old parent loses it and
nothing else; all other links, the subtree of the view, and the settings and the number of the
views are as before. To insert a view where it is changes nothing at all. An insertion that is
refused says why, unknown views first, and has written nothing. -/
theorem Reachable.insert_moves_view [Scalar α] (ht : t.Reachable) (tag parent : Tag)
    (index : Nat) :
    ((∃ t', t.insert tag parent index = .ok t') ↔
      t.contains tag = true ∧ t.contains parent = true ∧ ¬ t.Within tag parent) ∧
    (∀ t', t.insert tag parent index = .ok t' →
      let others := (t.children parent).filter (· ≠ tag)
      t'.children parent = others.insertIdx (min index others.length) tag ∧
      StablySorted t'.zAt (t'.children parent) (t'.paintedChildren parent) ∧
      (∀ x, t.parent? tag = some x → x ≠ parent →
        t'.children x = (t.children x).filter (· ≠ tag) ∧
          t'.paintedChildren x = (t.paintedChildren x).filter (· ≠ tag)) ∧
      (∀ x, x ≠ parent → t.parent? tag ≠ some x →
        t'.children x = t.children x ∧ t'.paintedChildren x = t.paintedChildren x) ∧
      (∀ x, t'.parent? x = if x = tag then some parent else t.parent? x) ∧
      (∀ x, t'.view? x = t.view? x) ∧
      (∀ x, (t'.Within tag x ↔ t.Within tag x) ∧ (t.Within tag x →
        t'.children x = t.children x ∧ t'.paintedChildren x = t.paintedChildren x)) ∧
      t'.size = t.size) ∧
    ((t.children parent)[index]? = some tag → t.insert tag parent index = .ok t) ∧
    (InPlace.insert tag parent index).run t = allOrNothing t (t.insert tag parent index) ∧
    (t.contains tag = false → t.insert tag parent index = .error (.unknown tag)) ∧
    (t.contains tag = true → t.contains parent = false →
      t.insert tag parent index = .error (.unknown parent)) ∧
    (t.contains tag = true → t.contains parent = true → t.Within tag parent →
      t.insert tag parent index = .error (.cycle tag parent)) := by
  have wf := ht.wellFormed
  refine ⟨⟨?_, fun ⟨htag, hparent, hnot⟩ => wf.insert_of_not_within htag hparent hnot index⟩,
    fun t' ht' => ?_, wf.insert_in_place, InPlace.run_insert wf tag parent index,
    insert_of_unknown, insert_of_unknownParent, wf.insert_of_within⟩
  · rintro ⟨t', ht'⟩
    obtain ⟨h, p, hh, hp, hnot, -, -⟩ := wf.exists_moved ht'
    exact ⟨exists_handle_iff.2 ⟨h, hh⟩, exists_handle_iff.2 ⟨p, hp⟩,
      mt (wf.within_iff hh hp).1 hnot⟩
  · intro others
    obtain ⟨h, p, hh, hp, hnot, m, wf'⟩ := wf.exists_moved ht'
    have hkept : ∀ x, x ≠ parent → t.parent? tag ≠ some x →
        t'.children x = t.children x ∧ t'.paintedChildren x = t.paintedChildren x := by
      intro x hx hparent
      obtain ⟨hchildren, hpainted⟩ := m.children_eq wf wf' hh hp hx
      obtain ⟨hself, hselfPainted⟩ := wf.filter_children_eq_self hparent
      exact ⟨hchildren.trans hself, hpainted.trans hselfPainted⟩
    have hagree := wf.agreeBelow_insert hh (fun _ => rfl) (fun _ => rfl) ht'
    refine ⟨m.children_parent_eq wf wf' hh hp, wf'.stablySorted_paintedChildren parent,
      fun x _ hx => m.children_eq wf wf' hh hp hx, hkept, m.parent?_eq wf wf' hh hp, m.view?_eq,
      fun x => ⟨hagree.within_iff wf wf' hh, fun hx => hkept x ?_ (wf.parent?_ne_of_within hh hx)⟩,
      m.size_eq⟩
    rintro rfl
    exact hnot ((wf.within_iff hh hp).1 hx)

/-- What is in the flat view is put between the two others. -/
theorem flattened_insert_moves_view : flattened.Reachable ∧
    ∃ t', flattened.insert ⟨4⟩ ⟨1⟩ 1 = .ok t' ∧ t'.children ⟨1⟩ = [⟨2⟩, ⟨4⟩, ⟨3⟩] ∧
      t'.children ⟨3⟩ = [] ∧ flattened.insert ⟨3⟩ ⟨1⟩ 1 = .ok flattened := by
  have hreach : flattened.Reachable := ((Reachable.empty.foldl _).foldl _).foldl _
  have htag : flattened.contains ⟨4⟩ = true := by cbv
  have hroot : flattened.contains ⟨1⟩ = true := by cbv
  have hchildren : flattened.children ⟨1⟩ = [⟨2⟩, ⟨3⟩] := by cbv
  have hinner : flattened.children ⟨3⟩ = [⟨4⟩] := by cbv
  have hparent : flattened.parent? ⟨4⟩ = some ⟨3⟩ := by cbv
  have hpath : (flattened.path? ⟨4⟩ ⟨1⟩).isSome = false := by cbv
  have hnot : ¬ flattened.Within ⟨4⟩ ⟨1⟩ := by
    rw [hreach.wellFormed.within_iff_path? htag, hpath]
    exact Bool.false_ne_true
  obtain ⟨hok, hmoves, -⟩ := hreach.insert_moves_view ⟨4⟩ ⟨1⟩ 1
  obtain ⟨t', ht'⟩ := hok.2 ⟨htag, hroot, hnot⟩
  obtain ⟨hplace, -, hold, -⟩ := hmoves t' ht'
  refine ⟨hreach, t', ht', ?_, ?_, (hreach.insert_moves_view ⟨3⟩ ⟨1⟩ 1).2.2.1 ?_⟩
  · rw [hplace, hchildren]
    decide
  · rw [(hold ⟨3⟩ hparent (by decide)).1, hinner]
    decide
  · rw [hchildren]
    rfl

end ViewHost.Tree
