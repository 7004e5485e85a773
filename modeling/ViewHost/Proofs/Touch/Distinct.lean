import Mathlib
import ViewHost.Proofs.Touch.Cancelling

/-!
# Identifiers on the table

Identifiers are issued one after the other, and after the last one from the first again, but not
those that touches on the table have. So the touches on the table are told apart by their
identifiers, however many have been issued before. All this takes is that a pointer goes down only
while there is an identifier that no other touch has: the search for one would never end otherwise.
-/

namespace ViewHost

variable {α : Type}

/-! ## The search for a free identifier -/

namespace TouchId

/-- The number of identifiers, zero being none. -/
def total : Nat := 2 ^ 64 - 1

/-- The identifier that comes `k` places after the given one, or after the first for zero. -/
def candidate (id : UInt64) (k : Nat) : UInt64 := .ofNat ((id.toNat - 1 + k) % total + 1)

theorem toNat_candidate (id : UInt64) (k : Nat) :
    (candidate id k).toNat = (id.toNat - 1 + k) % total + 1 := by
  refine UInt64.toNat_ofNat_of_lt' ?_
  have hlt := Nat.mod_lt (id.toNat - 1 + k) (show 0 < total by decide)
  simp only [total, UInt64.size] at hlt ⊢
  omega

theorem candidate_ne_zero (id : UInt64) (k : Nat) : candidate id k ≠ 0 := by
  intro hzero
  have htoNat := toNat_candidate id k
  rw [hzero] at htoNat
  exact absurd htoNat.symm (Nat.succ_ne_zero _)

theorem candidate_zero (id : UInt64) : candidate id 0 = if id = 0 then 1 else id := by
  rw [← UInt64.toNat_inj, toNat_candidate]
  have hlt := id.toNat_lt
  split
  · next h0 => subst h0; decide
  · next h0 =>
    have hne : id.toNat ≠ 0 := fun hzero => h0 (UInt64.toNat_inj.1 hzero)
    simp only [total]
    omega

theorem candidate_succ (id : UInt64) (k : Nat) :
    candidate id (k + 1) = candidate (candidate id 0 + 1) k := by
  rw [← UInt64.toNat_inj, toNat_candidate, toNat_candidate, UInt64.toNat_add, toNat_candidate]
  have hlt := id.toNat_lt
  have hone : (1 : UInt64).toNat = 1 := rfl
  simp only [total, hone]
  omega

/-- It takes as many steps as there are identifiers to come round. -/
theorem candidate_inj {id : UInt64} {j k : Nat} (hj : j < total) (hk : k < total)
    (heq : candidate id j = candidate id k) : j = k := by
  have htoNat := congrArg UInt64.toNat heq
  rw [toNat_candidate, toNat_candidate] at htoNat
  simp only [total] at *
  omega

/-- Not all identifiers are taken if one of them is free. -/
theorem length_lt_total {taken : List TouchId} (hnodup : taken.Nodup)
    (hzero : ⟨0⟩ ∉ taken) {i : TouchId} (hi : i ≠ ⟨0⟩) (hfree : i ∉ taken) :
    taken.length < total := by
  have hall : (⟨0⟩ :: i :: taken).Nodup :=
    List.nodup_cons.2 ⟨List.not_mem_cons_of_ne_of_not_mem hi.symm hzero, hnodup.cons hfree⟩
  have hnumbers : ((⟨0⟩ :: i :: taken).map (·.val.toNat)).Nodup := by
    refine hall.map fun a b hab => ?_
    cases a
    cases b
    exact congrArg TouchId.mk (UInt64.toNat_inj.1 hab)
  have hbelow : (⟨0⟩ :: i :: taken).map (·.val.toNat) ⊆ List.range (2 ^ 64) := by
    intro n hn
    obtain ⟨j, -, rfl⟩ := List.mem_map.1 hn
    exact List.mem_range.2 j.val.toNat_lt
  have hle := (hnumbers.subperm hbelow).length_le
  rw [List.length_map, List.length_range, List.length_cons, List.length_cons] at hle
  simp only [total]
  omega

end TouchId

namespace TouchTracker

open TouchId (candidate total)

variable {taken : List TouchId} {id : UInt64} {tries : Nat}

/-- The search passes over none but identifiers that are taken. -/
theorem candidate_mem_of_freeId_mem (hid : ⟨freeId taken tries id⟩ ∈ taken) :
    ∀ k ≤ tries, ⟨candidate id k⟩ ∈ taken := by
  induction tries generalizing id with
  | zero =>
    intro k hk
    rw [Nat.le_zero.1 hk, TouchId.candidate_zero]
    exact hid
  | succ tries ih =>
    simp only [freeId, ← TouchId.candidate_zero] at hid
    split at hid
    · next hfirst =>
      intro k hk
      cases k with
      | zero => exact hfirst
      | succ k =>
        rw [TouchId.candidate_succ]
        exact ih hid k (Nat.le_of_succ_le_succ hk)
    · next hfirst => exact absurd hid hfirst

/-- As many tries as identifiers are taken, and one more, are enough. -/
theorem freeId_not_mem (hroom : taken.length < total) (id : UInt64) :
    ⟨freeId taken taken.length id⟩ ∉ taken := by
  intro hid
  -- all candidates that were tried are taken, which is one more than there are
  have htried : (List.range (taken.length + 1)).map (fun k => (⟨candidate id k⟩ : TouchId)) ⊆
      taken := by
    intro i hi
    obtain ⟨k, hk, rfl⟩ := List.mem_map.1 hi
    exact candidate_mem_of_freeId_mem hid k (Nat.le_of_lt_succ (List.mem_range.1 hk))
  have hnodup : ((List.range (taken.length + 1)).map fun k =>
      (⟨candidate id k⟩ : TouchId)).Nodup := by
    refine List.Nodup.map_on (fun j hj k hk heq => ?_) List.nodup_range
    rw [List.mem_range] at hj hk
    exact TouchId.candidate_inj (by omega) (by omega) (congrArg TouchId.val heq)
  have hle := (hnodup.subperm htried).length_le
  rw [List.length_map, List.length_range] at hle
  omega

theorem freeId_ne_zero (taken : List TouchId) (tries : Nat) (id : UInt64) :
    freeId taken tries id ≠ 0 := by
  induction tries generalizing id with
  | zero =>
    rw [freeId, ← TouchId.candidate_zero]
    exact TouchId.candidate_ne_zero id 0
  | succ tries ih =>
    simp only [freeId, ← TouchId.candidate_zero]
    split
    · exact ih _
    · exact TouchId.candidate_ne_zero id 0

/-! ## Single touches -/

/-- Touches on the table are told apart by their pointers, and by their identifiers. -/
structure Distinct (t : TouchTracker α) : Prop where
  keyed : t.Keyed
  ids : (t.touches.map (·.id)).Nodup
  nonzero : ⟨0⟩ ∉ t.touches.map (·.id)

namespace Distinct

variable {t t' : TouchTracker α} {p : PointerId} {r : Touch α}

theorem congr (h : t.Distinct) (hactive : t'.active = t.active) : t'.Distinct where
  keyed := h.keyed.congr hactive
  ids := by
    rw [touches, hactive]
    exact h.ids
  nonzero := by
    rw [touches, hactive]
    exact h.nonzero

theorem of_filter (h : t.Distinct) {keep : PointerId × Touch α → Bool}
    (hactive : t'.active = t.active.filter keep) : t'.Distinct where
  keyed := h.keyed.of_filter hactive
  ids := by
    rw [touches, hactive]
    exact h.ids.sublist ((List.filter_sublist.map _).map _)
  nonzero := by
    rw [touches, hactive]
    exact fun hmem => h.nonzero (((List.filter_sublist.map _).map _).subset hmem)

/-- A touch with an identifier that no other touch has is put on the table. -/
theorem hold (h : t.Distinct) (hpointer : r.pointer = p) (hzero : r.id ≠ ⟨0⟩)
    (hid : r.id ∉ (t.release p).touches.map (·.id)) : (t.hold p r).Distinct where
  keyed := h.keyed.hold hpointer
  ids := by
    rw [touches, active_hold, List.map_cons, List.map_cons, List.nodup_cons]
    exact ⟨hid, (h.of_filter (active_release t p)).ids⟩
  nonzero := by
    rw [touches, active_hold, List.map_cons, List.map_cons]
    exact List.not_mem_cons_of_ne_of_not_mem hzero.symm (h.of_filter (active_release t p)).nonzero

/-- The touch of a pointer is the only one with its identifier. -/
theorem id_not_mem_release (h : t.Distinct) (hr : t.touch? p = some r) :
    r.id ∉ (t.release p).touches.map (·.id) := by
  intro hmem
  obtain ⟨d, hd, hid⟩ := List.mem_map.1 hmem
  obtain ⟨x, hx, rfl⟩ := mem_touches_iff.1 hd
  obtain ⟨hx, hne⟩ := List.mem_filter.1 hx
  have heq : x.2 = r := List.inj_on_of_nodup_map h.ids (mem_touches_iff.2 ⟨x, hx, rfl⟩)
    (h.keyed.mem_touches hr) hid
  refine of_decide_eq_true hne ?_
  rw [← h.keyed.own x hx, heq, h.keyed.pointer_eq hr]

end Distinct

end TouchTracker

/-! ## Runs -/

namespace TouchSession

open TouchTracker (Distinct)

variable [Scalar α] {s : TouchSession α} {call : TouchCall α} {calls : List (TouchCall α)}

/-- There is an identifier left for the touch of a pointer that goes down. -/
def HasRoom (s : TouchSession α) : TouchCall α → Prop
  | .down _ p _ _ _ => ∃ i : TouchId, i ≠ ⟨0⟩ ∧ i ∉ (s.tracker.release p).touches.map (·.id)
  | .move .. | .up .. | .cancel .. | .setRoot _ | .flush => True

/-- The search for an identifier ends with each down of a run. -/
def NeverFull (s : TouchSession α) : List (TouchCall α) → Prop
  | [] => True
  | call :: calls => s.HasRoom call ∧ (s.after call).NeverFull calls

theorem distinct_after (h : s.tracker.Distinct) (hroom : s.HasRoom call) :
    (s.after call).tracker.Distinct := by
  cases call with
  | down tree p kind point at_ =>
    let t := s.tracker.cleared p at_
    have hactive : t.active = s.tracker.active.filter (·.1 ≠ p) :=
      TouchTracker.active_cleared h.keyed p at_
    have ht : t.Distinct := h.of_filter hactive
    have hfresh : t.issueId.1 ∉ t.touches.map (·.id) := by
      have hlength : t.active.length = (t.touches.map (·.id)).length := by
        rw [List.length_map, TouchTracker.touches, List.length_map]
      have hsame : (s.tracker.release p).touches = t.touches := by
        rw [TouchTracker.touches, TouchTracker.touches, hactive, TouchTracker.active_release]
      obtain ⟨i, hi, hfree⟩ := hroom
      rw [hsame] at hfree
      rw [TouchTracker.issueId, hlength]
      exact TouchTracker.freeId_not_mem (TouchId.length_lt_total ht.ids ht.nonzero hi hfree) _
    have hzero : t.issueId.1 ≠ ⟨0⟩ := fun heq =>
      TouchTracker.freeId_ne_zero _ _ _ (congrArg TouchId.val heq)
    have hsame : (t.release p).touches.map (·.id) = t.touches.map (·.id) := by
      rw [TouchTracker.touches, TouchTracker.touches,
        TouchTracker.active_release_of_none (TouchTracker.touch?_cleared h.keyed p at_)]
    exact (ht.hold (r := (s.tracker.down tree p kind point at_).1) rfl hzero
      (hsame ▸ hfresh)).congr rfl
  | move tree p point at_ =>
    simp only [after, TouchTracker.move]
    cases hr : s.tracker.touch? p with
    | none => exact h
    | some r =>
      have hpointer : (r.moved s.tracker.epsilon tree point at_).pointer = p :=
        h.keyed.pointer_eq (r := r) hr
      have hzero : r.id ≠ ⟨0⟩ := fun heq =>
        h.nonzero (heq ▸ List.mem_map.2 ⟨r, h.keyed.mem_touches hr, rfl⟩)
      exact (h.hold hpointer hzero (h.id_not_mem_release (r := r) hr)).congr rfl
  | up tree p point at_ =>
    simp only [after, TouchTracker.up]
    cases s.tracker.touch? p with
    | none => exact h
    | some r => exact (h.of_filter (TouchTracker.active_release s.tracker p)).congr rfl
  | cancel reason at_ => exact h.of_filter (TouchTracker.active_cancel h.keyed reason at_)
  | setRoot root => exact h.congr rfl
  | flush =>
    simp only [after, TouchTracker.flush]
    split
    · exact h
    · exact h.congr rfl

theorem distinct_run (h : s.tracker.Distinct) (hroom : s.NeverFull calls) :
    (s.run calls).tracker.Distinct := by
  induction calls generalizing s with
  | nil => exact h
  | cons call calls ih => exact ih (distinct_after h hroom.1) hroom.2

theorem distinct_start (root : Tag) (epsilon : α) : (start root epsilon).tracker.Distinct where
  keyed := (sound_start root epsilon).accounts.keyed
  ids := .nil
  nonzero := List.not_mem_nil

end TouchSession

end ViewHost
