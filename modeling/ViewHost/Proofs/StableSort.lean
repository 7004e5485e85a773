import Mathlib.Data.List.Sort

/-!
# Stable sorting

What it means for one list to be another in ascending order of a key, with equal
keys left as they were. There is exactly one such list, so whatever is known to
be stably sorted depends on the elements, their sequence and their keys, and on
nothing else.
-/

namespace ViewHost

variable {β γ : Type}

/-- `ys` lists `xs` in ascending order of a key, those of equal keys as they were. -/
structure StablySorted (key : β → Int) (xs ys : List β) : Prop where
  perm : ys.Perm xs
  ascending : ys.Pairwise fun a b => key a ≤ key b
  stable : ∀ k, ys.filter (key · = k) = xs.filter (key · = k)

namespace StablySorted

variable {key key' : β → Int} {xs ys zs : List β}

theorem nil : StablySorted key [] [] := ⟨.nil, .nil, fun _ => rfl⟩

/-- Of two elements the one with the smaller key comes first. -/
theorem swap {a b : β} (h : key b < key a) : StablySorted key [a, b] [b, a] where
  perm := .swap a b []
  ascending := by simp [Int.le_of_lt h]
  stable k := by
    by_cases ha : key a = k
    · have hb : key b ≠ k := fun hb => Int.lt_irrefl k (by rwa [ha, hb] at h)
      simp [ha, hb]
    · simp [List.filter_cons, ha]

theorem mem_iff (h : StablySorted key xs ys) {a : β} : a ∈ ys ↔ a ∈ xs := h.perm.mem_iff

theorem mem_of_filter_eq (h : ∀ k, ys.filter (key · = k) = zs.filter (key · = k)) {a : β}
    (ha : a ∈ ys) : a ∈ zs := by
  have : a ∈ ys.filter (key · = key a) := by simp [ha]
  rw [h] at this
  exact (List.mem_filter.1 this).1

theorem head_le (hy : (y :: ys).Pairwise fun a b => key a ≤ key b) (hz : z ∈ y :: ys) :
    key y ≤ key z := by
  rcases List.mem_cons.1 hz with rfl | hz
  · exact Int.le_refl _
  · exact (List.pairwise_cons.1 hy).1 z hz

/-- Ascending lists that agree key by key are equal: both start with the first
element of the least key. -/
theorem eq_of_filter_eq (hy : ys.Pairwise fun a b => key a ≤ key b)
    (hz : zs.Pairwise fun a b => key a ≤ key b)
    (h : ∀ k, ys.filter (key · = k) = zs.filter (key · = k)) : ys = zs := by
  have hsymm : ∀ k, zs.filter (key · = k) = ys.filter (key · = k) := fun k => (h k).symm
  induction ys generalizing zs with
  | nil =>
    cases zs with
    | nil => rfl
    | cons z zs => exact absurd (mem_of_filter_eq hsymm List.mem_cons_self) (by simp)
  | cons y ys ih =>
    cases zs with
    | nil => exact absurd (mem_of_filter_eq h List.mem_cons_self) (by simp)
    | cons z zs =>
      have hyz : key y ≤ key z := head_le hy (mem_of_filter_eq hsymm List.mem_cons_self)
      have hzy : key z ≤ key y := head_le hz (mem_of_filter_eq h List.mem_cons_self)
      have hk : key z = key y := Int.le_antisymm hzy hyz
      have heq : y = z := by
        have := h (key y)
        simp only [List.filter_cons, hk, decide_true, if_true, List.cons.injEq] at this
        exact this.1
      subst heq
      have htails : ∀ k, ys.filter (key · = k) = zs.filter (key · = k) := by
        intro k
        have := h k
        by_cases hky : key y = k <;> simpa [List.filter_cons, hky] using this
      exact congrArg (y :: ·) (ih hy.of_cons hz.of_cons htails fun k => (htails k).symm)

theorem unique (hy : StablySorted key xs ys) (hz : StablySorted key xs zs) : ys = zs :=
  eq_of_filter_eq hy.ascending hz.ascending fun k => (hy.stable k).trans (hz.stable k).symm

/-- Only the keys of the elements matter. -/
theorem congr (h : StablySorted key xs ys) (hk : ∀ a ∈ xs, key' a = key a) :
    StablySorted key' xs ys := by
  refine ⟨h.perm, ?_, fun k => ?_⟩
  · refine h.ascending.imp_of_mem fun {a b} ha hb hab => ?_
    rwa [hk a (h.mem_iff.1 ha), hk b (h.mem_iff.1 hb)]
  · have hx : xs.filter (key' · = k) = xs.filter (key · = k) :=
      List.filter_congr fun a ha => by rw [hk a ha]
    have hy : ys.filter (key' · = k) = ys.filter (key · = k) :=
      List.filter_congr fun a ha => by rw [hk a (h.mem_iff.1 ha)]
    rw [hx, hy, h.stable]

/-- Leaving elements out needs no sorting. -/
theorem filter (h : StablySorted key xs ys) (p : β → Bool) :
    StablySorted key (xs.filter p) (ys.filter p) := by
  refine ⟨h.perm.filter p, h.ascending.filter p, fun k => ?_⟩
  rw [List.filter_comm, h.stable k, List.filter_comm]

theorem map {f : β → γ} {key' : γ → Int} (h : StablySorted key xs ys)
    (hk : ∀ a ∈ xs, key' (f a) = key a) : StablySorted key' (xs.map f) (ys.map f) := by
  have h' := h.congr hk
  refine ⟨h'.perm.map f, List.pairwise_map.2 h'.ascending, fun k => ?_⟩
  simp only [List.filter_map]
  exact congrArg (List.map f) (h'.stable k)

/-- Merge sort is stable: the elements of one key are an ascending sublist, and
such a sublist survives. -/
theorem mergeSort (key : β → Int) (xs : List β) :
    StablySorted key xs (xs.mergeSort fun a b => key a ≤ key b) := by
  have trans : ∀ a b c : β, decide (key a ≤ key b) = true → decide (key b ≤ key c) = true →
      decide (key a ≤ key c) = true := by
    intro a b c hab hbc
    simp only [decide_eq_true_eq] at *
    exact Int.le_trans hab hbc
  have total : ∀ a b : β, (decide (key a ≤ key b) || decide (key b ≤ key a)) = true := by
    intro a b
    simpa using Int.le_total (key a) (key b)
  have hperm := List.mergeSort_perm xs fun a b => decide (key a ≤ key b)
  refine ⟨hperm, (List.pairwise_mergeSort trans total xs).imp (by simp), fun k => ?_⟩
  have hasc : (xs.filter (key · = k)).Pairwise fun a b => decide (key a ≤ key b) = true := by
    refine List.pairwise_of_forall_mem_list fun a ha b hb => ?_
    have ha := (List.mem_filter.1 ha).2
    have hb := (List.mem_filter.1 hb).2
    simp only [decide_eq_true_eq] at *
    omega
  have hsub := (List.sublist_mergeSort trans total hasc List.filter_sublist).filter (key · = k)
  rw [List.filter_filter, show (fun a => decide (key a = k) && decide (key a = k)) =
    fun a => decide (key a = k) from funext fun a => Bool.and_self _] at hsub
  exact (hsub.eq_of_length_le (hperm.filter _).length_eq.le).symm

end StablySorted

end ViewHost
