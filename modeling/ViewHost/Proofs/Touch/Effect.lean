import Mathlib
import ViewHost.Proofs.Touch.Naming
import ViewHost.Proofs.Touch.Session

/-!
# What a call makes of one contact

A call about one pointer needs no more of a tracker than its root, its epsilon, the
touch of that pointer, and the identifier it issues if it is a down. From these
`TouchCall.effect` gives the touch that the pointer has afterwards and the reply: what
the call returns, and the updates it queues. Identifiers are only handed on, so
renaming commutes with it.
-/

namespace ViewHost

variable {α : Type}

/-- What a call returns, and the updates it queues. -/
structure TouchReply (α : Type) where
  record? : Option (Touch α)
  /-- The identifiers of the touches that the call was asked to cancel. -/
  cancelled : List TouchId
  told : List (TouchEvent α)

namespace TouchReply

def rename (f : TouchId → TouchId) (reply : TouchReply α) : TouchReply α where
  record? := reply.record?.map (·.rename f)
  cancelled := reply.cancelled.map f
  told := reply.told.map (BearsIds.rename f)

def ids (reply : TouchReply α) : List TouchId :=
  (reply.record?.map (·.id)).toList ++ reply.cancelled ++ reply.told.flatMap BearsIds.ids

instance : BearsIds (TouchReply α) where
  ids := ids
  rename := rename
  rename_id reply := by
    cases reply with
    | mk record? cancelled told =>
      have htold : told.map (BearsIds.rename id) = told :=
        (List.map_congr_left fun e _ => BearsIds.rename_id e).trans told.map_id
      cases record? <;> simp [rename, htold, Touch.rename]
  rename_rename f g reply := by
    cases reply with
    | mk record? cancelled told => cases record? <;> simp [rename, Touch.rename, BearsIds.rename]
  ids_rename f reply := by
    cases reply with
    | mk record? cancelled told =>
      have htold := ids_map_rename f told
      cases record? <;> simp [rename, ids, htold, Touch.rename]
  rename_congr {f g reply} h := by
    cases reply with
    | mk record? cancelled told =>
      have hcancelled : cancelled.map f = cancelled.map g :=
        List.map_congr_left fun i hi => h i (by simp [ids, hi])
      have htold : told.map (BearsIds.rename f) = told.map (BearsIds.rename g) :=
        List.map_congr_left fun e he => BearsIds.rename_congr fun i hi =>
          h i (List.mem_append_right _ (List.mem_flatMap.2 ⟨e, he, hi⟩))
      have hrecord : record?.map (·.rename f) = record?.map (·.rename g) := by
        cases record? with
        | none => rfl
        | some r =>
          rw [Option.map_some, Option.map_some, Touch.rename, Touch.rename, h r.id (.head _)]
      simp only [rename, hrecord, hcancelled, htold]

/-- The identifier of the touch that began with the call. -/
def begun (reply : TouchReply α) : List TouchId :=
  ((reply.record?.filter (·.phase = .began)).map (·.id)).toList

/-- The reply without the identifiers in it. -/
def unnamed (reply : TouchReply α) : TouchReply α := reply.rename fun _ => ⟨0⟩

end TouchReply

namespace Touch

/-- The touch that begins under an identifier. No other touch matters to it. -/
def begin [Scalar α] (id : TouchId) (root : Tag) (tree : Tree α) (p : PointerId)
    (kind : PointerKind) (point : Vec2 α) (at_ : Timestamp) : Touch α :=
  { ((TouchTracker.new root).down tree p kind point at_).1 with id := id }

/-- A touch that hits a view is where the map into the view's space has it. -/
theorem begin_of_hit [Scalar α] {tree : Tree α} {point : Vec2 α} {root tag : Tag}
    {m : Transform α} (hhit : tree.hitTest point root = some tag)
    (hm : tree.rootToLocal root tag = .ok m) (id : TouchId) (p : PointerId) (kind : PointerKind)
    (at_ : Timestamp) :
    let r := Touch.begin id root tree p kind point at_
    r.target = some tag ∧ r.toTarget = m ∧ r.location = m.applyToPoint point := by
  intro r
  have hmap : r.toTarget = m := by
    simp [r, Touch.begin, TouchTracker.down, TouchTracker.issueId, TouchTracker.new,
      TouchTracker.touch?, hhit, hm]
  exact ⟨hhit, hmap, congrArg (·.applyToPoint point) hmap⟩

/-- The touch after its pointer moved. -/
def moved [Scalar α] (r : Touch α) (epsilon : α) (tree : Tree α) (point : Vec2 α)
    (at_ : Timestamp) : Touch α :=
  let far := r.rootLocation.fartherThan point epsilon
  { r with phase := if far then .moved else .stationary }.relocate tree point at_

/-- The touch as its pointer goes up. -/
def ended [Scalar α] (r : Touch α) (tree : Tree α) (point : Vec2 α) (at_ : Timestamp) : Touch α :=
  { r with phase := .ended }.relocate tree point at_

def cancelled (r : Touch α) (at_ : Timestamp) : Touch α :=
  { r with phase := .cancelled, timestamp := at_ }

/-- The update for a touch, if there is one and it hit something. -/
def updates (r? : Option (Touch α)) : List (TouchEvent α) := (r?.bind event?).toList

theorem mem_ids_updates {r? : Option (Touch α)} {i : TouchId}
    (hi : i ∈ (updates r?).flatMap BearsIds.ids) : i ∈ r?.map (·.id) := by
  obtain ⟨e, he, hei⟩ := List.mem_flatMap.1 hi
  cases r? with
  | none => exact absurd he List.not_mem_nil
  | some r =>
    rw [List.mem_singleton.1 hei, identifier_of_mem_event? he]
    rfl

/-- The reply to a call that returns a touch names this touch only. -/
theorem mem_ids_record {r? : Option (Touch α)} {i : TouchId}
    (hi : i ∈ (⟨r?, [], updates r?⟩ : TouchReply α).ids) : i ∈ r?.map (·.id) := by
  simp only [TouchReply.ids, List.append_nil, List.mem_append, Option.mem_toList] at hi
  obtain hi | hi := hi
  · exact hi
  · exact mem_ids_updates hi

theorem updates_rename (f : TouchId → TouchId) (r? : Option (Touch α)) :
    updates (r?.map (·.rename f)) = (updates r?).map (BearsIds.rename f) := by
  cases r? with
  | none => rfl
  | some r => cases htarget : r.target <;> simp [updates, event?, rename, htarget, BearsIds.rename]

end Touch

namespace TouchCall

/-- The pointer that the call is about. Flushing and the other reasons to cancel are
about none in particular. -/
def pointer? : TouchCall α → Option PointerId
  | down _ p _ _ _ | move _ p _ _ | up _ p _ _ | cancel (.contact p) _ => some p
  | cancel .focusLost _ | cancel .system _ | cancel (.root _) _ | setRoot _ | flush => none

/-- Whether the call is about this pointer. -/
def isOn (call : TouchCall α) (p : PointerId) : Bool := call.pointer? = some p

/-- The call is about one pointer, or hands out what is pending. -/
def IsLocal (call : TouchCall α) : Prop := (∃ p, call.pointer? = some p) ∨ call = .flush

/-- The calls about one pointer, in their order. -/
def about (p : PointerId) (calls : List (TouchCall α)) : List (TouchCall α) :=
  calls.filter (·.isOn p)

section About

variable {call : TouchCall α} {p : PointerId}

theorem about_cons_of_isOn (hp : call.isOn p) (calls : List (TouchCall α)) :
    about p (call :: calls) = call :: about p calls :=
  List.filter_cons_of_pos hp

theorem about_cons_of_not_isOn (hp : ¬call.isOn p) (calls : List (TouchCall α)) :
    about p (call :: calls) = about p calls :=
  List.filter_cons_of_neg hp

end About

variable [Scalar α]

/-- The touch that a pointer has after a call about it, if it had `held` before, and
the reply. A down issues an identifier. -/
def effect (root : Tag) (epsilon : α) (issued : TouchId) (held : Option (Touch α)) :
    TouchCall α → Option (Touch α) × TouchReply α
  | down tree p kind point at_ =>
    let r := some (Touch.begin issued root tree p kind point at_)
    (r, ⟨r, [], Touch.updates (held.map (·.cancelled at_)) ++ Touch.updates r⟩)
  | move tree _ point at_ =>
    let r := held.map (·.moved epsilon tree point at_)
    (r, ⟨r, [], Touch.updates r⟩)
  | up tree _ point at_ =>
    let r := held.map (·.ended tree point at_)
    (none, ⟨r, [], Touch.updates r⟩)
  | cancel _ at_ =>
    (none, ⟨none, (held.map (·.id)).toList, Touch.updates (held.map (·.cancelled at_))⟩)
  | setRoot _ | flush => (held, ⟨none, [], []⟩)

/-- A touch after a call that does not end it. -/
def carried (epsilon : α) (r : Touch α) : TouchCall α → Touch α
  | move tree p point at_ => if r.pointer = p then r.moved epsilon tree point at_ else r
  | down .. | up .. | cancel .. | setRoot _ | flush => r

theorem continues_carried (epsilon : α) (r : Touch α) (call : TouchCall α) :
    (call.carried epsilon r).Continues r := by
  cases call with
  | move tree p point at_ =>
    rw [carried]
    split
    · exact .relocate (.refl r) ..
    · exact .refl r
  | down | up | cancel | setRoot | flush => exact .refl r

variable {call : TouchCall α} {p q : PointerId} {root : Tag} {epsilon : α} {issued i : TouchId}
variable {held : Option (Touch α)}

/-- Renaming what a call reads renames what it makes of it: identifiers are only
handed on. -/
theorem effect_rename (f : TouchId → TouchId) :
    call.effect root epsilon (f issued) (held.map (·.rename f)) =
      ((call.effect root epsilon issued held).1.map (·.rename f),
        (call.effect root epsilon issued held).2.rename f) := by
  have hmap : ∀ change : Touch α → Touch α,
      (∀ r, change (r.rename f) = (change r).rename f) →
      (held.map (·.rename f)).map change = (held.map change).map (·.rename f) := by
    intro change hchange
    rw [Option.map_map, Option.map_map]
    exact Option.map_congr fun r _ => hchange r
  cases call with
  | down tree p kind point at_ =>
    have hbegin : some (Touch.begin (f issued) root tree p kind point at_) =
        (some (Touch.begin issued root tree p kind point at_)).map (·.rename f) := rfl
    simp only [effect, TouchReply.rename, hbegin, hmap (·.cancelled at_) fun _ => rfl,
      Touch.updates_rename, List.map_append, List.map_nil]
  | move tree p point at_ =>
    simp only [effect, TouchReply.rename, hmap (·.moved epsilon tree point at_) fun _ => rfl,
      Touch.updates_rename, List.map_nil]
  | up tree p point at_ =>
    simp only [effect, TouchReply.rename, hmap (·.ended tree point at_) fun _ => rfl,
      Touch.updates_rename, List.map_nil, Option.map_none]
  | cancel reason at_ =>
    have hids : (held.map (·.rename f)).map (·.id) = (held.map (·.id)).map f := by
      rw [Option.map_map, Option.map_map]
      rfl
    simp only [effect, TouchReply.rename, hmap (·.cancelled at_) fun _ => rfl, hids,
      Touch.updates_rename, Option.map_none, Option.toList_map]
  | setRoot root => rfl
  | flush => rfl

/-- A reply names no touch but the one that the pointer had and the one that began. -/
theorem mem_ids_effect (hi : i ∈ (call.effect root epsilon issued held).2.ids) :
    i ∈ held.map (·.id) ∨ call.isDown ∧ issued = i := by
  -- none of the changes touches the identifier
  have hheld : ∀ {change : Touch α → Touch α}, i ∈ (held.map change).map (·.id) →
      (∀ r, (change r).id = r.id) → i ∈ held.map (·.id) := by
    intro change hi hchange
    rw [Option.map_map] at hi
    rwa [← Option.map_congr fun r _ => hchange r]
  cases call with
  | down tree p kind point at_ =>
    simp only [effect, TouchReply.ids, List.flatMap_append, List.mem_append,
      Option.mem_toList] at hi
    obtain (hi | hi) | hi | hi := hi
    · exact .inr ⟨rfl, Option.some.inj hi⟩
    · exact absurd hi List.not_mem_nil
    · exact .inl (hheld (Touch.mem_ids_updates hi) fun r => rfl)
    · exact .inr ⟨rfl, Option.some.inj (Touch.mem_ids_updates hi)⟩
  | move tree p point at_ => exact .inl (hheld (Touch.mem_ids_record hi) fun r => rfl)
  | up tree p point at_ => exact .inl (hheld (Touch.mem_ids_record hi) fun r => rfl)
  | cancel reason at_ =>
    simp only [effect, TouchReply.ids, List.mem_append, Option.mem_toList] at hi
    obtain (hi | hi) | hi := hi
    · exact absurd hi (Option.not_mem_none i)
    · exact .inl hi
    · exact .inl (hheld (Touch.mem_ids_updates hi) fun r => rfl)
  | setRoot root => simp [effect, TouchReply.ids] at hi
  | flush => simp [effect, TouchReply.ids] at hi

/-- A touch keeps its identifier. -/
theorem id_effect {r : Touch α} (hr : (call.effect root epsilon issued held).1 = some r) :
    r.id ∈ held.map (·.id) ∨ call.isDown ∧ issued = r.id := by
  cases call with
  | down tree p kind point at_ => exact .inr ⟨rfl, congrArg Touch.id (Option.some.inj hr)⟩
  | move tree p point at_ =>
    obtain ⟨d, hd, rfl⟩ := Option.map_eq_some_iff.1 hr
    exact .inl (Option.map_eq_some_iff.2 ⟨d, hd, rfl⟩)
  | up tree p point at_ => exact absurd hr (Option.some_ne_none r).symm
  | cancel reason at_ => exact absurd hr (Option.some_ne_none r).symm
  | setRoot root => exact .inl (Option.map_eq_some_iff.2 ⟨r, hr, rfl⟩)
  | flush => exact .inl (Option.map_eq_some_iff.2 ⟨r, hr, rfl⟩)

theorem begun_effect :
    (call.effect root epsilon issued held).2.begun = if call.isDown then [issued] else [] := by
  have hover : ∀ change : Touch α → Touch α, (∀ r, (change r).phase ≠ .began) →
      (held.map change).filter (·.phase = .began) = none := by
    intro change hchange
    cases held with
    | none => rfl
    | some r => simp [Option.filter, hchange r]
  cases call with
  | down tree p kind point at_ => rfl
  | move tree p point at_ =>
    have hmoved := hover (·.moved epsilon tree point at_) fun r => by
      simp only [Touch.moved, Touch.relocate]
      split <;> simp
    simp only [effect, TouchReply.begun, hmoved]
    rfl
  | up tree p point at_ =>
    have hended := hover (·.ended tree point at_) fun r => by
      simp [Touch.ended, Touch.relocate]
    simp only [effect, TouchReply.begun, hended]
    rfl
  | cancel reason at_ => rfl
  | setRoot root => rfl
  | flush => rfl

/-- Only a down issues an identifier. -/
theorem effect_congr (hi : call.isDown → issued = i) :
    call.effect root epsilon issued held = call.effect root epsilon i held := by
  cases call with
  | down => rw [hi rfl]
  | _ => rfl

end TouchCall

end ViewHost
