import Mathlib
import ViewHost.Touch.Tracker

/-!
# Naming touches

An identifier says no more than which touch is meant. Whatever bears identifiers can
therefore be renumbered: the identifier that appears first becomes the first one, the
next new one becomes the second, and so on. Two accounts of touches are the same but
for the choice of identifiers when renumbering makes them equal, and replacing
identifiers by others that are still told apart is invisible to it.
-/

namespace ViewHost

variable {α β : Type}

/-- Something that speaks of touches by their identifiers. -/
class BearsIds (β : Type) where
  /-- The identifiers in the order in which they appear. -/
  ids : β → List TouchId
  rename : (TouchId → TouchId) → β → β
  rename_id (x : β) : rename id x = x
  rename_rename (f g : TouchId → TouchId) (x : β) : rename f (rename g x) = rename (f ∘ g) x
  ids_rename (f : TouchId → TouchId) (x : β) : ids (rename f x) = (ids x).map f
  rename_congr {f g : TouchId → TouchId} {x : β} (h : ∀ i ∈ ids x, f i = g i) :
    rename f x = rename g x

open BearsIds

namespace TouchId

/-- The place of an identifier among those that appear, counted from one. -/
def place (ids : List TouchId) (i : TouchId) : TouchId := ⟨.ofNat (ids.eraseDups.idxOf i + 1)⟩

variable {f : TouchId → TouchId} {ids : List TouchId} {i : TouchId}

theorem eraseDups_map (hf : Set.InjOn f {i | i ∈ ids}) :
    (ids.map f).eraseDups = ids.eraseDups.map f := by
  induction ids using List.reverseRecOn with
  | nil => rfl
  | append_singleton ids i ih =>
    have hinit : Set.InjOn f {j | j ∈ ids} := hf.mono fun j hj => List.mem_append_left [i] hj
    have hmem : f i ∈ ids.map f ↔ i ∈ ids := by
      constructor
      · intro hfi
        obtain ⟨j, hj, hji⟩ := List.mem_map.1 hfi
        rwa [← hf (List.mem_append_left [i] hj) (List.mem_append_right ids (.head _)) hji]
      · exact fun hi => List.mem_map.2 ⟨i, hi, rfl⟩
    rw [List.map_append, List.eraseDups_append, List.eraseDups_append, List.map_append, ih hinit]
    refine congrArg _ ?_
    by_cases hi : i ∈ ids <;> simp [List.removeAll, List.eraseDups_cons, hi, hmem, -List.mem_map]

theorem idxOf_map (hf : Set.InjOn f {i | i ∈ ids}) (hi : i ∈ ids) :
    (ids.map f).idxOf (f i) = ids.idxOf i := by
  induction ids with
  | nil => exact absurd hi List.not_mem_nil
  | cons j ids ih =>
    rw [List.map_cons, List.idxOf_cons, List.idxOf_cons]
    by_cases hj : j = i
    · simp [hj]
    · have hfj : f j ≠ f i := fun h => hj (hf (.head _) hi h)
      have hi : i ∈ ids := List.mem_of_ne_of_mem (Ne.symm hj) hi
      have htail : Set.InjOn f {i | i ∈ ids} := hf.mono fun k hk => List.mem_cons_of_mem j hk
      rw [beq_eq_false_iff_ne.2 hfj, beq_eq_false_iff_ne.2 hj, ih htail hi]

/-- Places do not depend on what the identifiers are. -/
theorem place_map (hf : Set.InjOn f {i | i ∈ ids}) (hi : i ∈ ids) :
    place (ids.map f) (f i) = place ids i := by
  have hdups : Set.InjOn f {i | i ∈ ids.eraseDups} := hf.mono fun j hj => List.mem_eraseDups.1 hj
  rw [place, place, eraseDups_map hf, idxOf_map hdups (List.mem_eraseDups.2 hi)]

/-- Identifiers that are all different can be replaced by any others, one by one. -/
theorem exists_map_eq {ids ids' : List TouchId} (hids : ids.Nodup)
    (hlength : ids.length = ids'.length) : ∃ f : TouchId → TouchId, ids.map f = ids' := by
  induction ids generalizing ids' with
  | nil =>
    rw [List.length_nil, eq_comm, List.length_eq_zero_iff] at hlength
    exact ⟨id, hlength.symm⟩
  | cons i ids ih =>
    cases ids' with
    | nil => exact absurd hlength (Nat.succ_ne_zero _)
    | cons i' ids' =>
      rw [List.nodup_cons] at hids
      obtain ⟨f, hf⟩ := ih hids.2 (Nat.succ.inj hlength)
      refine ⟨Function.update f i i', ?_⟩
      have hrest : ids.map (Function.update f i i') = ids.map f := by
        refine List.map_congr_left fun j hj => Function.update_of_ne ?_ _ _
        exact fun hji => hids.1 (hji ▸ hj)
      rw [List.map_cons, Function.update_self, hrest, hf]

end TouchId

section Renumber

variable [BearsIds β] {f : TouchId → TouchId} {xs : List β}

/-- The same account with the identifiers replaced in the order of their first
appearance. -/
def renumber (xs : List β) : List β := xs.map (rename (TouchId.place (xs.flatMap ids)))

theorem ids_map_rename (f : TouchId → TouchId) (xs : List β) :
    (xs.map (rename f)).flatMap ids = (xs.flatMap ids).map f := by
  rw [List.flatMap_map, List.map_flatMap]
  exact List.flatMap_congr fun x _ => ids_rename f x

/-- Renumbering does not see which identifiers were chosen. -/
theorem renumber_map_rename (hf : Set.InjOn f {i | i ∈ xs.flatMap ids}) :
    renumber (xs.map (rename f)) = renumber xs := by
  rw [renumber, renumber, ids_map_rename, List.map_map]
  refine List.map_congr_left fun x hx => ?_
  rw [Function.comp_apply, rename_rename]
  exact rename_congr fun i hi => TouchId.place_map hf (List.mem_flatMap.2 ⟨x, hx, hi⟩)

end Renumber

/-- The touch under another identifier. -/
def Touch.rename (f : TouchId → TouchId) (r : Touch α) : Touch α := { r with id := f r.id }

instance : BearsIds (TouchEvent α) where
  ids e := [e.identifier]
  rename f e := { e with identifier := f e.identifier }
  rename_id _ := rfl
  rename_rename _ _ _ := rfl
  ids_rename _ _ := rfl
  rename_congr h := by rw [h _ (.head _)]

end ViewHost
