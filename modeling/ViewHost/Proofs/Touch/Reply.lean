import Mathlib
import ViewHost.Proofs.Touch.Effect
import ViewHost.Proofs.Touch.Pending

/-!
# Replies

The reply to a call of a session is what it returns together with the updates that were
not there before. A call about a pointer does to the touch of that pointer what
`TouchCall.effect` says, with that reply, and leaves the touches of the other pointers
alone; the other touches on the table, the updates that pend already and the batches
have no part in it.
-/

namespace ViewHost

variable {α : Type}

namespace TouchTracker

variable {t : TouchTracker α} {p q : PointerId} {r : Touch α}

/-! ## Single calls -/

theorem touch?_self_of_none (hr : t.touch? p = none) (q : PointerId) :
    t.touch? q = if q = p then none else t.touch? q := by
  split
  · next hq => rw [hq, hr]
  · rfl

theorem ids_cancel_contact (hk : t.Keyed) (p : PointerId) (at_ : Timestamp) :
    (t.cancel (.contact p) at_).1 = ((t.touch? p).map (·.id)).toList := by
  cases hr : t.touch? p with
  | none => rw [cancel_contact_of_none hk hr, Option.map_none, Option.toList_none]
  | some r => rw [cancel_contact_of_some hk hr, Option.map_some, Option.toList_some]

theorem pending_cancel_contact (hk : t.Keyed) (p : PointerId) (at_ : Timestamp) :
    (t.cancel (.contact p) at_).2.pending =
      t.pending ++ Touch.updates ((t.touch? p).map (·.cancelled at_)) := by
  cases hr : t.touch? p with
  | none =>
    rw [cancel_contact_of_none hk hr]
    exact (List.append_nil _).symm
  | some r =>
    rw [cancel_contact_of_some hk hr]
    rfl

theorem touch?_cancel_contact (hk : t.Keyed) (p q : PointerId) (at_ : Timestamp) :
    (t.cancel (.contact p) at_).2.touch? q = if q = p then none else t.touch? q := by
  cases hr : t.touch? p with
  | none =>
    rw [cancel_contact_of_none hk hr]
    exact touch?_self_of_none hr q
  | some r =>
    rw [cancel_contact_of_some hk hr]
    exact touch?_release t p q

theorem cleared_eq (hk : t.Keyed) (p : PointerId) (at_ : Timestamp) :
    t.cleared p at_ = (t.cancel (.contact p) at_).2 := by
  rw [cleared]
  split
  · rfl
  · next hr =>
    rw [Option.not_isSome_iff_eq_none] at hr
    rw [cancel_contact_of_none hk hr]

variable [Scalar α] {tree : Tree α} {kind : PointerKind} {point : Vec2 α} {at_ : Timestamp}

theorem move_fst (t : TouchTracker α) :
    (t.move tree p point at_).1 = (t.touch? p).map (·.moved t.epsilon tree point at_) := by
  cases hr : t.touch? p <;> simp only [move, hr, Option.map_none, Option.map_some, Touch.moved]

theorem pending_move (t : TouchTracker α) :
    (t.move tree p point at_).2.2.pending =
      t.pending ++ Touch.updates (t.move tree p point at_).1 := by
  cases hr : t.touch? p with
  | none =>
    simp only [move, hr]
    exact (List.append_nil _).symm
  | some r =>
    simp only [move, hr]
    rfl

theorem touch?_move (t : TouchTracker α) :
    (t.move tree p point at_).2.2.touch? q =
      if q = p then (t.move tree p point at_).1 else t.touch? q := by
  cases hr : t.touch? p with
  | none =>
    simp only [move, hr]
    exact touch?_self_of_none hr q
  | some r =>
    simp only [move, hr]
    exact touch?_hold _ p q _

theorem up_fst (t : TouchTracker α) :
    (t.up tree p point at_).1 = (t.touch? p).map (·.ended tree point at_) := by
  cases hr : t.touch? p <;> simp only [up, hr, Option.map_none, Option.map_some, Touch.ended]

theorem pending_up (t : TouchTracker α) :
    (t.up tree p point at_).2.2.pending =
      t.pending ++ Touch.updates (t.up tree p point at_).1 := by
  cases hr : t.touch? p with
  | none =>
    simp only [up, hr]
    exact (List.append_nil _).symm
  | some r =>
    simp only [up, hr]
    rfl

theorem touch?_up (t : TouchTracker α) :
    (t.up tree p point at_).2.2.touch? q = if q = p then none else t.touch? q := by
  cases hr : t.touch? p with
  | none =>
    simp only [up, hr]
    exact touch?_self_of_none hr q
  | some r =>
    simp only [up, hr]
    exact touch?_release _ p q

/-- A touch begins with its identifier, whatever else the tracker holds. -/
theorem down_fst (t : TouchTracker α) :
    (t.down tree p kind point at_).1 =
      Touch.begin (t.down tree p kind point at_).1.id t.root tree p kind point at_ := by
  rw [← root_cleared t p at_]
  rfl

theorem pending_down (hk : t.Keyed) :
    (t.down tree p kind point at_).2.2.pending =
      t.pending ++ (Touch.updates ((t.touch? p).map (·.cancelled at_)) ++
        Touch.updates (some (t.down tree p kind point at_).1)) := by
  rw [← List.append_assoc, ← pending_cancel_contact hk p at_, ← cleared_eq hk]
  rfl

theorem touch?_down (hk : t.Keyed) :
    (t.down tree p kind point at_).2.2.touch? q =
      if q = p then some (t.down tree p kind point at_).1 else t.touch? q := by
  have hclear := touch?_cancel_contact hk p q at_
  rw [← cleared_eq hk] at hclear
  refine (touch?_hold _ p q _).trans (ite_congr rfl (fun _ => rfl) fun hq => ?_)
  rw [if_neg hq] at hclear
  exact hclear

end TouchTracker

namespace TouchSession

variable {s : TouchSession α} {call : TouchCall α} {p q : PointerId}

theorem told_append {u : TouchSession α} {es : List (TouchEvent α)}
    (hbatches : u.batches = s.batches) (hpending : u.tracker.pending = s.tracker.pending ++ es) :
    u.told = s.told ++ es := by
  rw [told, told, hbatches, hpending, List.append_assoc]

theorem drop_told {u : TouchSession α} {es : List (TouchEvent α)}
    (htold : u.told = s.told ++ es) : u.told.drop s.told.length = es := by
  rw [htold, List.drop_left]

variable [Scalar α]

/-- The reply to a call. The updates are those that were not there before. -/
def reply (s : TouchSession α) (call : TouchCall α) : TouchReply α where
  record? :=
    match call with
    | .down tree p kind point at_ => some (s.tracker.down tree p kind point at_).1
    | .move tree p point at_ => (s.tracker.move tree p point at_).1
    | .up tree p point at_ => (s.tracker.up tree p point at_).1
    | .cancel .. | .setRoot _ | .flush => none
  cancelled :=
    match call with
    | .cancel reason at_ => (s.tracker.cancel reason at_).1
    | .down .. | .move .. | .up .. | .setRoot _ | .flush => []
  told := (s.after call).told.drop s.told.length

/-- The identifier that a call issues, if it is a down. -/
def issued (s : TouchSession α) : TouchCall α → TouchId
  | .down tree p kind point at_ => (s.tracker.down tree p kind point at_).1.id
  | _ => ⟨0⟩

/-- What a call about a pointer does to the touch of that pointer. -/
def effect (s : TouchSession α) (p : PointerId) (call : TouchCall α) :
    Option (Touch α) × TouchReply α :=
  call.effect s.tracker.root s.tracker.epsilon (s.issued call) (s.tracker.touch? p)

theorem told_flush (s : TouchSession α) : (s.after .flush).told = s.told ++ [] := by
  simp only [after, TouchTracker.flush]
  split
  · simp [told]
  · simp [told]

/-- The updates so far are followed by those in the reply. -/
theorem told_after (s : TouchSession α) (call : TouchCall α) :
    (s.after call).told = s.told ++ (s.reply call).told := by
  have hmore : ∃ es, (s.after call).told = s.told ++ es := by
    cases call with
    | down tree p kind point at_ =>
      exact ⟨_, told_append rfl ((TouchTracker.oblivious_down tree p kind point at_).pending_eq _)⟩
    | move tree p point at_ =>
      exact ⟨_, told_append rfl ((TouchTracker.oblivious_move tree p point at_).pending_eq _)⟩
    | up tree p point at_ =>
      exact ⟨_, told_append rfl ((TouchTracker.oblivious_up tree p point at_).pending_eq _)⟩
    | cancel reason at_ =>
      exact ⟨_, told_append rfl ((TouchTracker.oblivious_cancel reason at_).pending_eq _)⟩
    | setRoot root => exact ⟨[], told_append rfl (List.append_nil _).symm⟩
    | flush => exact ⟨[], told_flush s⟩
  obtain ⟨es, hes⟩ := hmore
  have hreply : (s.reply call).told = es := drop_told hes
  rw [hreply, hes]

/-- A call about a pointer leaves the touches of the other pointers alone. -/
theorem touch?_after (hk : s.tracker.Keyed) (hq : call.pointer? = some q) (p : PointerId) :
    (s.after call).tracker.touch? p =
      if p = q then (s.effect q call).1 else s.tracker.touch? p := by
  cases call with
  | down tree q' kind point at_ =>
    obtain rfl := Option.some.inj hq
    refine (TouchTracker.touch?_down hk).trans (ite_congr rfl (fun _ => ?_) fun _ => rfl)
    exact congrArg some (TouchTracker.down_fst s.tracker)
  | move tree q' point at_ =>
    obtain rfl := Option.some.inj hq
    simp only [effect, TouchCall.effect, ← TouchTracker.move_fst]
    exact TouchTracker.touch?_move s.tracker
  | up tree q' point at_ =>
    obtain rfl := Option.some.inj hq
    exact TouchTracker.touch?_up s.tracker
  | cancel reason at_ =>
    cases reason with
    | contact q' =>
      obtain rfl := Option.some.inj hq
      exact TouchTracker.touch?_cancel_contact hk q' p at_
    | _ => exact absurd hq (Option.some_ne_none q).symm
  | setRoot root => exact absurd hq (Option.some_ne_none q).symm
  | flush => exact absurd hq (Option.some_ne_none q).symm

/-- The reply to a call about a pointer tells of the touch of that pointer only. -/
theorem reply_eq (hk : s.tracker.Keyed) (hq : call.pointer? = some q) :
    s.reply call = (s.effect q call).2 := by
  cases call with
  | down tree q' kind point at_ =>
    obtain rfl := Option.some.inj hq
    have htold := drop_told (told_append (s := s) (u := s.after (.down tree q' kind point at_)) rfl
      (TouchTracker.pending_down hk))
    simp only [reply, effect, TouchCall.effect, htold, issued]
    rw [← TouchTracker.down_fst]
  | move tree q' point at_ =>
    obtain rfl := Option.some.inj hq
    have htold := drop_told (told_append (s := s) (u := s.after (.move tree q' point at_)) rfl
      (TouchTracker.pending_move s.tracker))
    simp only [reply, effect, TouchCall.effect, htold, ← TouchTracker.move_fst]
  | up tree q' point at_ =>
    obtain rfl := Option.some.inj hq
    have htold := drop_told (told_append (s := s) (u := s.after (.up tree q' point at_)) rfl
      (TouchTracker.pending_up s.tracker))
    simp only [reply, effect, TouchCall.effect, htold, ← TouchTracker.up_fst]
  | cancel reason at_ =>
    cases reason with
    | contact q' =>
      obtain rfl := Option.some.inj hq
      have htold := drop_told (told_append (s := s) (u := s.after (.cancel (.contact q') at_)) rfl
        (TouchTracker.pending_cancel_contact hk q' at_))
      simp only [reply, effect, TouchCall.effect, htold, TouchTracker.ids_cancel_contact hk]
    | _ => exact absurd hq (Option.some_ne_none q).symm
  | setRoot root => exact absurd hq (Option.some_ne_none q).symm
  | flush => exact absurd hq (Option.some_ne_none q).symm

/-! ## Runs -/

variable {calls : List (TouchCall α)}

/-- The replies to the calls about one pointer, in a run. -/
def repliesTo (p : PointerId) (s : TouchSession α) : List (TouchCall α) → List (TouchReply α)
  | [] => []
  | call :: calls =>
    if call.isOn p then s.reply call :: (s.after call).repliesTo p calls
    else (s.after call).repliesTo p calls

theorem repliesTo_of_isOn (hp : call.isOn p) (s : TouchSession α) (calls : List (TouchCall α)) :
    s.repliesTo p (call :: calls) = s.reply call :: (s.after call).repliesTo p calls := by
  rw [repliesTo, if_pos hp]

theorem repliesTo_of_not_isOn (hp : ¬call.isOn p) (s : TouchSession α)
    (calls : List (TouchCall α)) :
    s.repliesTo p (call :: calls) = (s.after call).repliesTo p calls := by
  rw [repliesTo, if_neg hp]

/-- The identifiers of the touches that began with the calls about one pointer. -/
def begun (p : PointerId) (s : TouchSession α) (calls : List (TouchCall α)) : List TouchId :=
  (s.repliesTo p calls).flatMap (·.begun)

theorem keyed_after (hk : s.tracker.Keyed) (call : TouchCall α) : (s.after call).tracker.Keyed := by
  cases call with
  | down tree p kind point at_ =>
    have hcleared := hk.of_filter (TouchTracker.active_cleared hk p at_)
    exact (hcleared.hold (r := (s.tracker.down tree p kind point at_).1) rfl).congr rfl
  | move tree p point at_ =>
    simp only [after, TouchTracker.move]
    cases hr : s.tracker.touch? p with
    | none => exact hk
    | some r =>
      have hr' : (r.moved s.tracker.epsilon tree point at_).pointer = p :=
        hk.pointer_eq (r := r) hr
      exact (hk.hold hr').congr rfl
  | up tree p point at_ =>
    simp only [after, TouchTracker.up]
    cases s.tracker.touch? p with
    | none => exact hk
    | some r => exact (hk.release p).congr rfl
  | cancel reason at_ => exact hk.of_filter (TouchTracker.active_cancel hk reason at_)
  | setRoot root => exact hk.congr rfl
  | flush =>
    simp only [after, TouchTracker.flush]
    split
    · exact hk
    · exact hk.congr rfl

/-- Only `setRoot` changes what new touches and moves go by, and only a down counts the
identifiers on. -/
theorem settings_after (hcall : call.IsLocal) :
    (s.after call).tracker.root = s.tracker.root ∧
      (s.after call).tracker.epsilon = s.tracker.epsilon ∧
      (s.after call).tracker.nextId =
        if call.isDown then (s.issued call).val + 1 else s.tracker.nextId := by
  cases call with
  | down tree p kind point at_ =>
    exact ⟨TouchTracker.root_cleared s.tracker p at_,
      TouchTracker.epsilon_cleared s.tracker p at_, rfl⟩
  | move tree p point at_ =>
    simp only [after, TouchTracker.move]
    cases s.tracker.touch? p <;> exact ⟨rfl, rfl, rfl⟩
  | up tree p point at_ =>
    simp only [after, TouchTracker.up]
    cases s.tracker.touch? p <;> exact ⟨rfl, rfl, rfl⟩
  | cancel reason at_ =>
    exact ⟨TouchTracker.root_cancelEach .., TouchTracker.epsilon_cancelEach ..,
      TouchTracker.nextId_cancelEach ..⟩
  | setRoot root => simp [TouchCall.IsLocal, TouchCall.pointer?] at hcall
  | flush =>
    simp only [after, TouchTracker.flush]
    split <;> exact ⟨rfl, rfl, rfl⟩

theorem touch?_after_flush (s : TouchSession α) (p : PointerId) :
    (s.after .flush).tracker.touch? p = s.tracker.touch? p := by
  simp only [after, TouchTracker.flush]
  split <;> rfl

/-- A call leaves the touches that it does not end on the table. -/
theorem touch?_after_of_not_ends (hk : s.tracker.Keyed) {r : Touch α}
    (hr : s.tracker.touch? p = some r) (hends : call.ends r = false) :
    (s.after call).tracker.touch? p = some (call.carried s.tracker.epsilon r) := by
  obtain rfl : r.pointer = p := hk.pointer_eq hr
  have other : ∀ q, call.pointer? = some q → r.pointer ≠ q →
      (s.after call).tracker.touch? r.pointer = some r := by
    intro q hq hne
    rw [touch?_after hk hq, if_neg hne, hr]
  cases call with
  | down tree q | up tree q => exact other q rfl (of_decide_eq_false hends)
  | move tree q point at_ =>
    rw [TouchCall.carried]
    split
    · next hq =>
      rw [touch?_after hk rfl, if_pos hq, effect, ← hq, hr]
      rfl
    · next hq => exact other q rfl hq
  | cancel reason at_ => exact (hk.touch?_cancel_eq_some_iff reason at_).2 ⟨hr, hends⟩
  | setRoot root => exact hr
  | flush => exact (touch?_after_flush s r.pointer).trans hr

theorem begun_reply (hk : s.tracker.Keyed) (hp : call.isOn p) :
    (s.reply call).begun = if call.isDown then [s.issued call] else [] := by
  rw [reply_eq hk (of_decide_eq_true hp)]
  exact TouchCall.begun_effect

theorem begun_cons (hk : s.tracker.Keyed) (call : TouchCall α) (calls : List (TouchCall α)) :
    s.begun p (call :: calls) =
      (if call.isDown ∧ call.isOn p then [s.issued call] else []) ++
        (s.after call).begun p calls := by
  by_cases hp : call.isOn p
  · rw [begun, repliesTo_of_isOn hp, List.flatMap_cons, begun_reply hk hp]
    simp only [hp, and_true]
    rfl
  · rw [begun, repliesTo_of_not_isOn hp, if_neg fun h => hp h.2]
    rfl

/-- One touch begins with each down. -/
theorem length_begun (hk : s.tracker.Keyed) (calls : List (TouchCall α)) :
    (s.begun p calls).length = (TouchCall.about p calls).countP (·.isDown) := by
  induction calls generalizing s with
  | nil => rfl
  | cons call calls ih =>
    rw [begun_cons hk, List.length_append, ih (keyed_after hk call)]
    by_cases hp : call.isOn p
    · rw [TouchCall.about_cons_of_isOn hp, List.countP_cons, Nat.add_comm]
      by_cases hd : call.isDown <;> simp [hp, hd]
    · rw [TouchCall.about_cons_of_not_isOn hp]
      simp [hp]

end TouchSession

end ViewHost
