import Mathlib
import ViewHost.Proofs.Touch.Reply

/-!
# Whose identifiers

Identifiers are issued from one on, to the contacts of all pointers in turn, and no two
contacts get the same one before all have been issued. Until then an identifier tells
whose contact it is: a reply to a pointer names its own contacts only, and the updates
that name them are those in the replies to it.
-/

namespace ViewHost

variable {α : Type}

namespace TouchSession

variable {s u : TouchSession α} {call : TouchCall α} {calls : List (TouchCall α)}
variable {p q : PointerId}

/-- The identifiers of the contacts of a pointer, in the order they went down. -/
def idsOf (s : TouchSession α) (p : PointerId) : List TouchId :=
  ((s.contacts.map (·.down)).filter (·.pointer = p)).map (·.id)

/-- The updates that are about the contacts of a pointer. -/
def toldOf (s : TouchSession α) (p : PointerId) : List (TouchEvent α) :=
  s.told.filter (·.identifier ∈ s.idsOf p)

/-- The contacts are numbered from one on, and each touch on the table has the number
of a contact of its pointer. -/
structure Enumerated (s : TouchSession α) : Prop where
  keyed : s.tracker.Keyed
  held : ∀ p r, s.tracker.touch? p = some r → r.id ∈ s.idsOf p
  numbered : (s.contacts.map (·.down.id)).map (·.val.toNat) = List.range' 1 s.contacts.length
  next : s.tracker.nextId.toNat = (s.contacts.length + 1) % 2 ^ 64

namespace Enumerated

theorem toNat_mem_range (h : s.Enumerated) {i : TouchId} (hi : i ∈ s.idsOf p) :
    i.val.toNat ∈ List.range' 1 s.contacts.length := by
  obtain ⟨d, hd, rfl⟩ := List.mem_map.1 hi
  obtain ⟨c, hc, rfl⟩ := List.mem_map.1 (List.mem_of_mem_filter hd)
  rw [← h.numbered]
  exact List.mem_map.2 ⟨_, List.mem_map.2 ⟨c, hc, rfl⟩, rfl⟩

/-- Identifiers are issued once. -/
theorem nodup_ids (h : s.Enumerated) : (s.contacts.map (·.down.id)).Nodup := by
  have hnumbers : ((s.contacts.map (·.down.id)).map (·.val.toNat)).Nodup := by
    rw [h.numbered]
    exact List.nodup_range'
  exact hnumbers.of_map _

theorem nodup_idsOf (h : s.Enumerated) (p : PointerId) : (s.idsOf p).Nodup := by
  have hsublist : (s.idsOf p).Sublist ((s.contacts.map (·.down)).map (·.id)) :=
    List.filter_sublist.map _
  rw [List.map_map] at hsublist
  exact h.nodup_ids.sublist hsublist

/-- No identifier is issued to two pointers. -/
theorem pointer_unique (h : s.Enumerated) {i : TouchId} (hp : i ∈ s.idsOf p)
    (hq : i ∈ s.idsOf q) : p = q := by
  obtain ⟨d, hd, rfl⟩ := List.mem_map.1 hp
  obtain ⟨d', hd', hid⟩ := List.mem_map.1 hq
  obtain ⟨hd, hdp⟩ := List.mem_filter.1 hd
  obtain ⟨hd', hdq⟩ := List.mem_filter.1 hd'
  have hnodup : ((s.contacts.map (·.down)).map (·.id)).Nodup := by
    rw [List.map_map]
    exact h.nodup_ids
  rw [← of_decide_eq_true hdp, ← of_decide_eq_true hdq, List.inj_on_of_nodup_map hnodup hd' hd hid]

end Enumerated

/-! ## Single calls -/

variable [Scalar α]

theorem ids_after (s : TouchSession α) (call : TouchCall α) :
    (s.after call).contacts.map (·.down.id) =
      s.contacts.map (·.down.id) ++ if call.isDown then [s.issued call] else [] := by
  cases call <;> simp [after, TouchCall.isDown, issued, Function.comp_def, Contact.under]

theorem idsOf_after (s : TouchSession α) (call : TouchCall α) (p : PointerId) :
    (s.after call).idsOf p =
      s.idsOf p ++ if call.isDown ∧ call.isOn p then [s.issued call] else [] := by
  cases call with
  | down tree q kind point at_ =>
    have hpointer : (s.tracker.down tree q kind point at_).1.pointer = q := rfl
    simp only [idsOf, after, List.map_append, map_down_under, List.filter_append,
      List.map_singleton]
    obtain rfl | hq := eq_or_ne q p
    · simp [TouchCall.isDown, TouchCall.isOn, TouchCall.pointer?, hpointer, issued]
    · simp [TouchCall.isDown, TouchCall.isOn, TouchCall.pointer?, hpointer, hq]
  | _ => simp [idsOf, after, TouchCall.isDown, Function.comp_def, Contact.under]

namespace Enumerated

theorem start (root : Tag) (epsilon : α) : (start root epsilon).Enumerated where
  keyed := ⟨.nil, by simp [TouchSession.start, TouchTracker.new]⟩
  held p r hr := by simp [TouchSession.start, TouchTracker.new, TouchTracker.touch?] at hr
  numbered := rfl
  next := rfl

/-- While there are identifiers left, a contact gets the next one. -/
theorem issued_eq (h : s.Enumerated) (hdown : call.isDown)
    (hroom : s.contacts.length + 1 < 2 ^ 64) : s.issued call = ⟨s.tracker.nextId⟩ := by
  cases call with
  | down tree p kind point at_ =>
    let t := s.tracker.cleared p at_
    have hnext : s.tracker.nextId.toNat = s.contacts.length + 1 := by
      rw [h.next, Nat.mod_eq_of_lt hroom]
    have hzero : s.tracker.nextId ≠ 0 := by
      intro hzero
      rw [hzero] at hnext
      exact absurd hnext.symm (Nat.succ_ne_zero _)
    have hmem : ⟨s.tracker.nextId⟩ ∉ t.touches.map (·.id) := by
      intro hmem
      obtain ⟨r, hr, hid⟩ := List.mem_map.1 hmem
      obtain ⟨x, hx, rfl⟩ := TouchTracker.mem_touches_iff.1 hr
      rw [TouchTracker.active_cleared h.keyed] at hx
      have htouch := h.keyed.touch?_eq_some_iff.2 (List.mem_of_mem_filter hx)
      have hlt := h.toNat_mem_range (h.held _ _ htouch)
      rw [hid, List.mem_range'_1] at hlt
      have hle : s.tracker.nextId.toNat < 1 + s.contacts.length := hlt.2
      omega
    have hissued : s.issued (.down tree p kind point at_) = t.issueId.1 := rfl
    rw [hissued, TouchTracker.issueId, TouchTracker.nextId_cleared]
    exact congrArg TouchId.mk (TouchTracker.freeId_of_not_mem hzero hmem _)
  | _ => exact absurd hdown Bool.false_ne_true

theorem after (h : s.Enumerated) (hcall : call.IsLocal)
    (hroom : call.isDown → s.contacts.length + 1 < 2 ^ 64) : (s.after call).Enumerated where
  keyed := keyed_after h.keyed call
  held p r hr := by
    rw [idsOf_after, List.mem_append]
    obtain ⟨q, hq⟩ | rfl := hcall
    · rw [touch?_after h.keyed hq] at hr
      by_cases hp : p = q
      · subst hp
        rw [if_pos rfl] at hr
        -- the touch is the one the pointer had, or the one that began
        obtain hid | ⟨hdown, hid⟩ := TouchCall.id_effect hr
        · obtain ⟨d, hd, hid⟩ := Option.map_eq_some_iff.1 hid
          exact .inl (hid ▸ h.held p d hd)
        · rw [if_pos ⟨hdown, decide_eq_true hq⟩, hid]
          exact .inr (List.mem_singleton_self _)
      · rw [if_neg hp] at hr
        exact .inl (h.held p r hr)
    · rw [touch?_after_flush] at hr
      exact .inl (h.held p r hr)
  numbered := by
    rw [ids_after, List.map_append, h.numbered, length_contacts_after]
    by_cases hdown : call.isDown
    · have hnext : s.tracker.nextId.toNat = s.contacts.length + 1 := by
        rw [h.next, Nat.mod_eq_of_lt (hroom hdown)]
      rw [if_pos hdown, if_pos hdown, h.issued_eq hdown (hroom hdown), List.range'_1_concat,
        List.map_singleton, hnext, Nat.add_comm 1]
    · rw [if_neg hdown, if_neg hdown, List.map_nil, List.append_nil, Nat.add_zero]
  next := by
    rw [(settings_after hcall).2.2, length_contacts_after]
    by_cases hdown : call.isDown
    · have hone : (1 : UInt64).toNat = 1 := rfl
      rw [if_pos hdown, if_pos hdown, h.issued_eq hdown (hroom hdown), UInt64.toNat_add, h.next,
        hone]
      omega
    · rw [if_neg hdown, if_neg hdown, Nat.add_zero, h.next]

/-- A reply to a pointer names none but its own contacts. -/
theorem mem_ids_reply (h : s.Enumerated) (hp : call.isOn p) {i : TouchId}
    (hi : i ∈ (s.reply call).ids) : i ∈ (s.after call).idsOf p := by
  rw [reply_eq h.keyed (of_decide_eq_true hp)] at hi
  rw [idsOf_after, List.mem_append]
  obtain hi | ⟨hdown, rfl⟩ := TouchCall.mem_ids_effect hi
  · obtain ⟨r, hr, rfl⟩ := Option.map_eq_some_iff.1 hi
    exact .inl (h.held p r hr)
  · rw [if_pos ⟨hdown, hp⟩]
    exact .inr (List.mem_singleton_self _)

end Enumerated

/-! ## Runs -/

theorem idsOf_run (hk : s.tracker.Keyed) (calls : List (TouchCall α)) (p : PointerId) :
    (s.run calls).idsOf p = s.idsOf p ++ s.begun p calls := by
  induction calls generalizing s with
  | nil => exact (List.append_nil _).symm
  | cons call calls ih =>
    rw [begun_cons hk, ← List.append_assoc, ← idsOf_after]
    exact ih (keyed_after hk call)

theorem idsOf_subset_run (hk : s.tracker.Keyed) (calls : List (TouchCall α)) (p : PointerId) :
    s.idsOf p ⊆ (s.run calls).idsOf p := by
  rw [idsOf_run hk]
  exact List.subset_append_left _ _

namespace Enumerated

/-- A run goes on after its first call. -/
theorem cons (h : s.Enumerated)
    (hcalls : ∀ c ∈ call :: calls, c.IsLocal)
    (hroom : s.contacts.length + (call :: calls).countP (·.isDown) < 2 ^ 64) :
    (s.after call).Enumerated ∧ (∀ c ∈ calls, c.IsLocal) ∧
      (s.after call).contacts.length + calls.countP (·.isDown) < 2 ^ 64 := by
  rw [List.countP_cons] at hroom
  refine ⟨h.after (hcalls call List.mem_cons_self) fun hdown => ?_,
    fun c hc => hcalls c (List.mem_cons_of_mem _ hc), ?_⟩
  · rw [if_pos hdown] at hroom
    omega
  · rw [length_contacts_after]
    omega

theorem run (h : s.Enumerated) (hcalls : ∀ call ∈ calls, call.IsLocal)
    (hroom : s.contacts.length + calls.countP (·.isDown) < 2 ^ 64) : (s.run calls).Enumerated := by
  induction calls generalizing s with
  | nil => exact h
  | cons call calls ih =>
    obtain ⟨hafter, hrest, hroom⟩ := h.cons hcalls hroom
    exact ih hafter hrest hroom

theorem mem_ids_repliesTo (h : s.Enumerated)
    (hcalls : ∀ call ∈ calls, call.IsLocal)
    (hroom : s.contacts.length + calls.countP (·.isDown) < 2 ^ 64) {i : TouchId}
    (hi : i ∈ (s.repliesTo p calls).flatMap BearsIds.ids) : i ∈ (s.run calls).idsOf p := by
  induction calls generalizing s with
  | nil => exact absurd hi List.not_mem_nil
  | cons call calls ih =>
    obtain ⟨hafter, hrest, hroom⟩ := h.cons hcalls hroom
    by_cases hp : call.isOn p
    · rw [repliesTo_of_isOn hp, List.flatMap_cons, List.mem_append] at hi
      obtain hi | hi := hi
      · exact idsOf_subset_run hafter.keyed calls p (h.mem_ids_reply hp hi)
      · exact ih hafter hrest hroom hi
    · rw [repliesTo_of_not_isOn hp] at hi
      exact ih hafter hrest hroom hi

/-- Of what a call tells, a pointer is concerned by all or nothing. -/
theorem filter_told_reply (h : s.Enumerated) (hcall : call.IsLocal)
    (hlast : u.Enumerated) (hids : ∀ q, (s.after call).idsOf q ⊆ u.idsOf q) (p : PointerId) :
    (s.reply call).told.filter (·.identifier ∈ u.idsOf p) =
      if call.isOn p then (s.reply call).told else [] := by
  obtain ⟨q, hq⟩ | rfl := hcall
  · have hmem : ∀ e ∈ (s.reply call).told, e.identifier ∈ u.idsOf q := by
      intro e he
      refine hids q (h.mem_ids_reply (decide_eq_true hq) (List.mem_append_right _ ?_))
      exact List.mem_flatMap.2 ⟨e, he, List.mem_singleton_self _⟩
    split
    · next hp =>
      have hpq : q = p := Option.some.inj (hq.symm.trans (of_decide_eq_true hp))
      subst hpq
      exact List.filter_eq_self.2 fun e he => decide_eq_true (hmem e he)
    · next hp =>
      refine List.filter_eq_nil_iff.2 fun e he hep => hp ?_
      rw [hlast.pointer_unique (of_decide_eq_true hep) (hmem e he)]
      exact decide_eq_true hq
  · have hnone : (s.reply .flush).told = [] := drop_told (told_flush s)
    simp [hnone]

/-- What the replies to a pointer tell is all that is told of its contacts. -/
theorem toldOf_run (h : s.Enumerated)
    (hcalls : ∀ call ∈ calls, call.IsLocal)
    (hroom : s.contacts.length + calls.countP (·.isDown) < 2 ^ 64) (p : PointerId) :
    (s.run calls).toldOf p =
      s.told.filter (·.identifier ∈ (s.run calls).idsOf p) ++
        (s.repliesTo p calls).flatMap (·.told) := by
  induction calls generalizing s with
  | nil => exact (List.append_nil _).symm
  | cons call calls ih =>
    obtain ⟨hafter, hrest, hrest_room⟩ := h.cons hcalls hroom
    -- at the end of the run it still shows whose updates these are
    have hnow := h.filter_told_reply (hcalls call List.mem_cons_self)
      (hafter.run hrest hrest_room) (idsOf_subset_run hafter.keyed calls) p
    have hlater := ih hafter hrest hrest_room
    rw [told_after, List.filter_append, hnow, List.append_assoc] at hlater
    refine hlater.trans (congrArg _ ?_)
    by_cases hp : call.isOn p
    · rw [if_pos hp, repliesTo_of_isOn hp, List.flatMap_cons]
    · rw [if_neg hp, repliesTo_of_not_isOn hp, List.nil_append]

end Enumerated

/-- When all calls are about one pointer, all updates are in the replies to it. -/
theorem told_run_about (s : TouchSession α) (hcalls : ∀ call ∈ calls, call.isOn p) :
    (s.run calls).told = s.told ++ (s.repliesTo p calls).flatMap (·.told) := by
  induction calls generalizing s with
  | nil => exact (List.append_nil _).symm
  | cons call calls ih =>
    have hp := hcalls call List.mem_cons_self
    rw [repliesTo_of_isOn hp, List.flatMap_cons, ← List.append_assoc, ← told_after]
    exact ih (s.after call) fun call hmem => hcalls call (List.mem_cons_of_mem _ hmem)

end TouchSession

end ViewHost
