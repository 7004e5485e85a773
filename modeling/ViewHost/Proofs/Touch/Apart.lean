import Mathlib
import ViewHost.Proofs.Touch.Issue

/-!
# Contacts do not interfere

What a pointer gets to see of a tracker are the replies to its own calls and the
updates of its own contacts. Two sessions are compared call by call, one with the
calls of all pointers and one with those of a single pointer: as long as that pointer
has the same touch in both, but for its identifier, its next call has the same reply
and leaves the same touch, and the calls of the others leave its touch alone.
Identifiers are the one thing the pointers share. They are issued to all in turn, so
the two sessions choose different ones, and renumbering takes the difference away.
-/

namespace ViewHost

variable {α : Type} [Scalar α]

namespace PointerId

/-- Contacts are numbered after the mouse. -/
theorem ofContact_ne_mouse (n : UInt64) : ofContact n ≠ mouse := by
  intro h
  rw [ofContact] at h
  split at h
  · next hn =>
    rw [hn] at h
    exact absurd h (by decide)
  · next hn =>
    apply hn
    have hsucc : n + 1 = 0 := congrArg PointerId.val h
    rw [← hsucc, UInt64.add_sub_cancel]

theorem ofContact_inj {m n : UInt64} (hm : m.toNat < 2 ^ 64 - 1) (hn : n.toNat < 2 ^ 64 - 1)
    (h : ofContact m = ofContact n) : m = n := by
  have hsucc : ∀ {k : UInt64}, k.toNat < 2 ^ 64 - 1 → ofContact k = ⟨k + 1⟩ := by
    intro k hk
    rw [ofContact, if_neg]
    rintro rfl
    exact absurd hk (by decide)
  rw [hsucc hm, hsucc hn, PointerId.mk.injEq] at h
  exact UInt64.add_left_inj 1 |>.1 h

end PointerId

namespace TouchSession

variable {s u : TouchSession α} {call : TouchCall α} {calls : List (TouchCall α)}
variable {p q : PointerId} {f g : TouchId → TouchId}

/-- A pointer has the same touch in two sessions, but for its identifier. -/
structure Alongside (p : PointerId) (f g : TouchId → TouchId) (s u : TouchSession α) : Prop where
  keyed_left : s.tracker.Keyed
  keyed_right : u.tracker.Keyed
  root : s.tracker.root = u.tracker.root
  epsilon : s.tracker.epsilon = u.tracker.epsilon
  touch : (s.tracker.touch? p).map (·.rename f) = (u.tracker.touch? p).map (·.rename g)

namespace Alongside

/-- A call about another pointer makes no difference. -/
theorem other (h : Alongside p f g s u) (hcall : call.IsLocal)
    (hp : call.isOn p = false) : Alongside p f g (s.after call) u where
  keyed_left := keyed_after h.keyed_left call
  keyed_right := h.keyed_right
  root := (settings_after hcall).1.trans h.root
  epsilon := (settings_after hcall).2.1.trans h.epsilon
  touch := by
    obtain ⟨q, hq⟩ | rfl := hcall
    · have hpq : p ≠ q := by
        rintro rfl
        simp [TouchCall.isOn, hq] at hp
      rw [touch?_after h.keyed_left hq, if_neg hpq]
      exact h.touch
    · rw [touch?_after_flush]
      exact h.touch

/-- A call about the pointer has the same effect in both sessions. -/
theorem effect (h : Alongside p f g s u)
    (hissued : call.isDown → f (s.issued call) = g (u.issued call)) :
    ((s.effect p call).1.map (·.rename f), (s.effect p call).2.rename f) =
      ((u.effect p call).1.map (·.rename g), (u.effect p call).2.rename g) := by
  rw [TouchSession.effect, TouchSession.effect, ← TouchCall.effect_rename,
    ← TouchCall.effect_rename, h.root, h.epsilon, h.touch]
  exact TouchCall.effect_congr hissued

/-- A call about the pointer has the same reply in both sessions, and goes on with the
same touch. -/
theorem own (h : Alongside p f g s u) (hcall : call.IsLocal)
    (hp : call.isOn p)
    (hbegun : (s.reply call).begun.map f = (u.reply call).begun.map g) :
    (s.reply call).rename f = (u.reply call).rename g ∧
      Alongside p f g (s.after call) (u.after call) := by
  have hp : call.pointer? = some p := of_decide_eq_true hp
  rw [reply_eq h.keyed_left hp, reply_eq h.keyed_right hp] at hbegun ⊢
  have hissued : call.isDown → f (s.issued call) = g (u.issued call) := by
    intro hdown
    simpa [TouchSession.effect, TouchCall.begun_effect, hdown] using hbegun
  have heffect := h.effect hissued
  refine ⟨congrArg Prod.snd heffect, keyed_after h.keyed_left call, keyed_after h.keyed_right call,
    ?_, ?_, ?_⟩
  · rw [(settings_after hcall).1, (settings_after hcall).1, h.root]
  · rw [(settings_after hcall).2.1, (settings_after hcall).2.1, h.epsilon]
  · rw [touch?_after h.keyed_left hp, touch?_after h.keyed_right hp, if_pos rfl, if_pos rfl]
    exact congrArg Prod.fst heffect

/-- In a run, the replies to the calls about the pointer are those it would get on its
own, if the identifiers of its touches correspond. -/
theorem replies (h : Alongside p f g s u)
    (hcalls : ∀ call ∈ calls, call.IsLocal)
    (hbegun : (s.begun p calls).map f = (u.begun p (TouchCall.about p calls)).map g) :
    (s.repliesTo p calls).map (·.rename f) =
      (u.repliesTo p (TouchCall.about p calls)).map (·.rename g) := by
  induction calls generalizing s u with
  | nil => rfl
  | cons call calls ih =>
    have hcall := hcalls call List.mem_cons_self
    have hrest : ∀ call ∈ calls, call.IsLocal := fun call hmem =>
      hcalls call (List.mem_cons_of_mem _ hmem)
    by_cases hp : call.isOn p
    · rw [TouchCall.about_cons_of_isOn hp] at hbegun ⊢
      rw [begun, begun, repliesTo_of_isOn hp, repliesTo_of_isOn hp, List.flatMap_cons,
        List.flatMap_cons, List.map_append, List.map_append] at hbegun
      -- both sessions begin a touch now, or neither does
      have hlength : ((s.reply call).begun.map f).length = ((u.reply call).begun.map g).length := by
        rw [List.length_map, List.length_map, begun_reply h.keyed_left hp,
          begun_reply h.keyed_right hp]
        split <;> rfl
      obtain ⟨hnow, hlater⟩ := List.append_inj hbegun hlength
      obtain ⟨hreply, hafter⟩ := h.own hcall hp hnow
      rw [repliesTo_of_isOn hp, repliesTo_of_isOn hp, List.map_cons, List.map_cons, hreply,
        ih hafter hrest hlater]
    · rw [TouchCall.about_cons_of_not_isOn hp] at hbegun ⊢
      rw [begun_cons h.keyed_left, if_neg fun h => hp h.2, List.nil_append] at hbegun
      rw [repliesTo_of_not_isOn hp]
      exact ih (h.other hcall (Bool.not_eq_true _ ▸ hp)) hrest hbegun

end Alongside

variable (root : Tag) (epsilon : α)

/-- The same pointer at the start of two sessions. -/
theorem Alongside.start (p : PointerId) (f g : TouchId → TouchId) :
    Alongside p f g (start root epsilon) (start root epsilon) where
  keyed_left := (Enumerated.start root epsilon).keyed
  keyed_right := (Enumerated.start root epsilon).keyed
  root := rfl
  epsilon := rfl
  touch := rfl

theorem length_begun_about (p : PointerId) (calls : List (TouchCall α)) :
    ((start root epsilon).begun p calls).length =
      ((start root epsilon).begun p (TouchCall.about p calls)).length := by
  have hk := (Enumerated.start root epsilon).keyed
  have htwice : TouchCall.about p (TouchCall.about p calls) = TouchCall.about p calls :=
    List.filter_eq_self.2 fun call hcall => (List.mem_filter.1 hcall).2
  rw [length_begun hk, length_begun hk, htwice]

/-- While no identifier is issued twice, the replies to a pointer become those it would
get on its own by giving its contacts other identifiers, no two of them the same. -/
theorem exists_rename {calls : List (TouchCall α)}
    (hcalls : ∀ call ∈ calls, call.IsLocal)
    (hfew : calls.countP (·.isDown) < 2 ^ 64) (p : PointerId) :
    ∃ f : TouchId → TouchId,
      Set.InjOn f {i | i ∈ ((start root epsilon).run calls).idsOf p} ∧
      ((start root epsilon).repliesTo p calls).map (·.rename f) =
        (start root epsilon).repliesTo p (TouchCall.about p calls) := by
  have h : (start root epsilon).Enumerated := .start root epsilon
  have hown : ∀ call ∈ TouchCall.about p calls, call.IsLocal :=
    fun call hcall => hcalls call (List.mem_of_mem_filter hcall)
  have hownfew : (TouchCall.about p calls).countP (·.isDown) < 2 ^ 64 :=
    Nat.lt_of_le_of_lt List.filter_sublist.countP_le hfew
  have hids : ∀ calls, ((start root epsilon).run calls).idsOf p =
      (start root epsilon).begun p calls := fun calls => idsOf_run h.keyed calls p
  have hnodup := (h.run hcalls (by simpa [start] using hfew)).nodup_idsOf p
  have hnodup' := (h.run hown (by simpa [start] using hownfew)).nodup_idsOf p
  rw [hids] at hnodup hnodup'
  obtain ⟨f, hf⟩ := TouchId.exists_map_eq hnodup (length_begun_about root epsilon p calls)
  refine ⟨f, ?_, ?_⟩
  · rw [← hf] at hnodup'
    intro i hi j hj hij
    rw [Set.mem_ofPred_eq, hids] at hi hj
    exact List.inj_on_of_nodup_map hnodup' hi hj hij
  · have hreplies := (Alongside.start root epsilon p f id).replies hcalls (by rw [hf, List.map_id])
    rw [hreplies]
    exact (List.map_congr_left fun reply _ => BearsIds.rename_id reply).trans (List.map_id _)

/-- What a pointer sees is what it would see if the calls about it were the only ones. The
replies to it are the same but for the identifiers. While there are identifiers left, so
that none stands for two contacts, renumbering makes the identifiers the same as well, in
the replies and in all that is told of its contacts. The mouse and the contacts that a
platform numbers are different pointers. -/
theorem contacts_apart (calls : List (TouchCall α))
    (hcalls : ∀ call ∈ calls, call.IsLocal) :
    (∀ p,
      let s := start root epsilon
      let own := TouchCall.about p calls
      (s.repliesTo p calls).map (·.unnamed) = (s.repliesTo p own).map (·.unnamed) ∧
      (calls.countP (·.isDown) < 2 ^ 64 →
        renumber ((s.run calls).toldOf p) = renumber (s.run own).told ∧
        renumber (s.repliesTo p calls) = renumber (s.repliesTo p own))) ∧
    (∀ m n : UInt64, m.toNat < 2 ^ 64 - 1 → n.toNat < 2 ^ 64 - 1 →
      PointerId.ofContact m = PointerId.ofContact n → m = n) ∧
    ∀ n, PointerId.ofContact n ≠ .mouse := by
  refine ⟨fun p => ?_, fun m n => PointerId.ofContact_inj, PointerId.ofContact_ne_mouse⟩
  intro s own
  have h : s.Enumerated := .start root epsilon
  constructor
  · refine (Alongside.start root epsilon p _ _).replies hcalls ?_
    rw [List.map_const', List.map_const', length_begun_about]
  · intro hfew
    obtain ⟨f, hf, hreplies⟩ := exists_rename root epsilon hcalls hfew p
    have hroom : s.contacts.length + calls.countP (·.isDown) < 2 ^ 64 := by
      simpa [s, start] using hfew
    have htold : (s.run calls).toldOf p = (s.repliesTo p calls).flatMap (·.told) :=
      h.toldOf_run hcalls hroom p
    have hown : (s.run own).told = ((s.run calls).toldOf p).map (BearsIds.rename f) := by
      have hall : ∀ call ∈ own, call.isOn p := fun call hcall => (List.mem_filter.1 hcall).2
      rw [htold, List.map_flatMap, told_run_about s hall]
      rw [← hreplies, List.flatMap_map]
      rfl
    constructor
    · rw [hown, renumber_map_rename]
      refine hf.mono fun i hi => ?_
      obtain ⟨e, he, hei⟩ := List.mem_flatMap.1 hi
      rw [List.mem_singleton.1 hei]
      exact of_decide_eq_true (List.mem_filter.1 he).2
    · have hrename : s.repliesTo p own = (s.repliesTo p calls).map (BearsIds.rename f) :=
        hreplies.symm
      rw [hrename, renumber_map_rename]
      exact hf.mono fun i hi => h.mem_ids_repliesTo hcalls hroom hi

/-- The mouse misses the only view, goes up, and hits it the next time. Meanwhile a finger
goes down, moves, goes down again without having gone up, and is cancelled. -/
def crossed : List (TouchCall Rat) :=
  let tree := [.create ⟨1⟩ .view, .setFrame ⟨1⟩ ⟨0, 0, 100, 100⟩].foldl Tree.after .empty
  let finger := PointerId.ofContact 0
  [.down tree .mouse .mouse ⟨200, 5⟩ .zero, .down tree finger .touch ⟨5, 5⟩ .zero,
    .up tree .mouse ⟨9, 5⟩ .zero, .flush, .down tree .mouse .mouse ⟨9, 5⟩ .zero,
    .move tree finger ⟨6, 5⟩ .second, .down tree finger .touch ⟨7, 5⟩ .second,
    .up tree .mouse ⟨9, 9⟩ .second, .cancel (.contact finger) .second]

theorem crossed_stay_apart :
    let s : TouchSession Rat := start ⟨1⟩ 0
    let finger := PointerId.ofContact 0
    let own := TouchCall.about finger crossed
    (∀ call ∈ crossed, call.IsLocal) ∧ crossed.countP (·.isDown) < 2 ^ 64 ∧
    ((s.run crossed).toldOf finger).map (·.identifier.val) = [2, 2, 2, 4, 4] ∧
    (s.run own).told.map (·.identifier.val) = [1, 1, 1, 2, 2] ∧
    renumber ((s.run crossed).toldOf finger) = renumber (s.run own).told ∧
    renumber (s.repliesTo finger crossed) = renumber (s.repliesTo finger own) := by
  intro s finger own
  have hlocal : ∀ call ∈ crossed, call.IsLocal := by
    simp [crossed, TouchCall.IsLocal, TouchCall.pointer?]
  have hfew : crossed.countP (·.isDown) < 2 ^ 64 := by decide
  have hboth : ((s.run crossed).toldOf finger).map (·.identifier.val) = [2, 2, 2, 4, 4] := by cbv
  have halone : (s.run own).told.map (·.identifier.val) = [1, 1, 1, 2, 2] := by cbv
  obtain ⟨-, hsame⟩ := (contacts_apart ⟨1⟩ 0 crossed hlocal).1 finger
  exact ⟨hlocal, hfew, hboth, halone, hsame hfew⟩

end TouchSession

end ViewHost
