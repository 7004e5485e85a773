import Mathlib
import ViewHost.Proofs.Touch.Reply
import ViewHost.Proofs.Tree.Path

/-!
# Touches over a changing tree

A scene is a touch session together with the tree that it looks at. In a turn either a
command changes the tree, or a call is made on the tree as it is by then. A touch looks
for the map into the space of its target with each move, and keeps the last one found.
-/

namespace ViewHost

variable {α : Type}

/-- What can happen to a tracker and the tree that it looks at. -/
inductive TouchTurn (α : Type) where
  | edit (command : Command α)
  | down (pointer : PointerId) (kind : PointerKind) (point : Vec2 α) (at_ : Timestamp)
  | move (pointer : PointerId) (point : Vec2 α) (at_ : Timestamp)
  | up (pointer : PointerId) (point : Vec2 α) (at_ : Timestamp)
  | cancel (reason : CancelReason) (at_ : Timestamp)
  | setRoot (root : Tag)
  | flush

namespace TouchTurn

/-- The call that is made, if one is, on the tree as it is. -/
def call? (tree : Tree α) : TouchTurn α → Option (TouchCall α)
  | edit _ => none
  | down p kind point at_ => some (.down tree p kind point at_)
  | move p point at_ => some (.move tree p point at_)
  | up p point at_ => some (.up tree p point at_)
  | cancel reason at_ => some (.cancel reason at_)
  | setRoot root => some (.setRoot root)
  | flush => some .flush

/-- Whether the turn ends a touch that is down. A pointer that goes down again ends the
touch it had. -/
def ends : TouchTurn α → Touch α → Bool
  | down p _ _ _, r | up p _ _, r => r.pointer = p
  | cancel reason _, r => r.selectedBy reason
  | edit _, _ | move .., _ | setRoot _, _ | flush, _ => false

/-- Whether the turn moves the pointer of a touch. -/
def moves : TouchTurn α → Touch α → Bool
  | move p _ _, r => r.pointer = p
  | _, _ => false

end TouchTurn

namespace Touch

variable [Scalar α] {r r' : Touch α} {turn : TouchTurn α}

/-- The map into the space of the touch's target, if it is found in the tree. -/
def mapIn (r : Touch α) (tree : Tree α) : Option (Transform α) :=
  r.target.bind fun target => (tree.rootToLocal r.root target).toOption

theorem toTarget_relocate (r : Touch α) (tree : Tree α) (point : Vec2 α) (at_ : Timestamp) :
    (r.relocate tree point at_).toTarget = (r.mapIn tree).getD r.toTarget := by
  rw [relocate, mapIn]
  cases r.target with
  | none => rfl
  | some target =>
    show _ = ((tree.rootToLocal r.root target).toOption).getD r.toTarget
    cases htree : tree.rootToLocal r.root target <;> simp only [htree] <;> rfl

/-- A touch is where the last map found has it. -/
theorem location_relocate (r : Touch α) (tree : Tree α) (point : Vec2 α) (at_ : Timestamp) :
    (r.relocate tree point at_).location =
      ((r.mapIn tree).getD r.toTarget).applyToPoint point := by
  rw [← r.toTarget_relocate tree point at_]
  rfl

theorem Continues.mapIn_eq (hr : r'.Continues r) (tree : Tree α) :
    r'.mapIn tree = r.mapIn tree := by
  rw [mapIn, mapIn, hr.target, hr.root]

omit [Scalar α] in
theorem Continues.trans {d : Touch α} (hr' : r'.Continues r) (hr : r.Continues d) :
    r'.Continues d :=
  ⟨hr'.id.trans hr.id, hr'.pointer.trans hr.pointer, hr'.root.trans hr.root,
    hr'.target.trans hr.target⟩

omit [Scalar α] in
theorem Continues.ends_eq (hr : r'.Continues r) (turn : TouchTurn α) :
    turn.ends r' = turn.ends r := by
  cases turn <;> simp only [TouchTurn.ends, hr.pointer, hr.selectedBy_eq]

omit [Scalar α] in
theorem Continues.moves_eq (hr : r'.Continues r) (turn : TouchTurn α) :
    turn.moves r' = turn.moves r := by
  cases turn <;> simp only [TouchTurn.moves, hr.pointer]

/-- The reply tells of a touch, and of nothing else, that its pointer is at a point and
where this is in the target's space. -/
def IsToldAt (r : Touch α) (point place : Vec2 α) (reply : TouchReply α) : Prop :=
  ∃ r' : Touch α, r'.Continues r ∧ r'.rootLocation = point ∧ r'.location = place ∧
    reply = ⟨some r', [], updates (some r')⟩

theorem Continues.isToldAt (hr : r'.Continues r) (phase : TouchPhase) (tree : Tree α)
    (point : Vec2 α) (at_ : Timestamp) :
    let r₁ := ({ r' with phase := phase } : Touch α).relocate tree point at_
    r.IsToldAt point (((r.mapIn tree).getD r'.toTarget).applyToPoint point)
      ⟨some r₁, [], updates (some r₁)⟩ := by
  refine ⟨_, hr.relocate phase tree point at_, rfl, ?_, rfl⟩
  rw [location_relocate, ← hr.mapIn_eq]
  rfl

end Touch

/-- A touch session and the tree that it looks at. -/
structure TouchScene (α : Type) where
  tree : Tree α
  session : TouchSession α

namespace TouchScene

variable [Scalar α]

/-- No views, and a tracker with no touches. -/
def start (root : Tag) (epsilon : α) : TouchScene α := ⟨.empty, .start root epsilon⟩

/-- The scene after a turn. -/
def after (s : TouchScene α) : TouchTurn α → TouchScene α
  | .edit c => { s with tree := s.tree.after c }
  | turn => { s with session := (turn.call? s.tree).elim s.session s.session.after }

/-- The scene after some turns. -/
def run (s : TouchScene α) (turns : List (TouchTurn α)) : TouchScene α := turns.foldl after s

/-- Turns lead to the scene from the start. -/
def Reachable (s : TouchScene α) : Prop :=
  ∃ (root : Tag) (epsilon : α) (turns : List (TouchTurn α)), s = (start root epsilon).run turns

/-- The touch of a pointer. -/
def touch? (s : TouchScene α) (p : PointerId) : Option (Touch α) := s.session.tracker.touch? p

/-- The map that a touch finds in a turn. -/
def finds? (s : TouchScene α) (r : Touch α) (turn : TouchTurn α) : Option (Transform α) :=
  if turn.moves r then r.mapIn s.tree else none

/-- The maps that a touch finds as its pointer moves, in their order. -/
def found (r : Touch α) (s : TouchScene α) : List (TouchTurn α) → List (Transform α)
  | [] => []
  | turn :: turns => (s.finds? r turn).toList ++ (s.after turn).found r turns

/-- Moves and ups of a touch's pointer are told at the place which a map gives. -/
def Reports (s : TouchScene α) (r : Touch α) (m : Transform α) : Prop :=
  ∀ point at_, r.IsToldAt point (m.applyToPoint point)
      (s.session.reply (.move s.tree r.pointer point at_)) ∧
    r.IsToldAt point (m.applyToPoint point) (s.session.reply (.up s.tree r.pointer point at_))

/-- The parts of a scene are in order. -/
structure WellFormed (s : TouchScene α) : Prop where
  tree : s.tree.WellFormed
  keyed : s.session.tracker.Keyed

variable {s : TouchScene α} {turn : TouchTurn α} {turns : List (TouchTurn α)}
variable {call : TouchCall α} {r r' : Touch α} {m : Transform α}

theorem after_of_call (hcall : turn.call? s.tree = some call) :
    s.after turn = ⟨s.tree, s.session.after call⟩ := by
  cases turn with
  | edit c => cases hcall
  | _ =>
    cases hcall
    rfl

theorem finds?_congr (hr : r'.Continues r) (s : TouchScene α) (turn : TouchTurn α) :
    s.finds? r' turn = s.finds? r turn := by
  rw [finds?, finds?, hr.moves_eq, hr.mapIn_eq]

theorem found_congr (hr : r'.Continues r) (s : TouchScene α) (turns : List (TouchTurn α)) :
    s.found r' turns = s.found r turns := by
  induction turns generalizing s with
  | nil => rfl
  | cons turn turns ih => rw [found, found, finds?_congr hr, ih]

/-- A touch for which no map is there to be found finds none. -/
theorem found_eq_nil (hnone : ∀ k, r.mapIn (s.run (turns.take k)).tree = none) :
    s.found r turns = [] := by
  induction turns generalizing s with
  | nil => rfl
  | cons turn turns ih =>
    have hfinds : s.finds? r turn = none := by
      rw [finds?]
      split
      · exact hnone 0
      · rfl
    rw [found, hfinds, ih fun k => hnone (k + 1)]
    rfl

namespace WellFormed

theorem start (root : Tag) (epsilon : α) : (start root epsilon).WellFormed where
  tree := .empty
  keyed := (TouchSession.sound_start root epsilon).accounts.keyed

theorem after (hs : s.WellFormed) (turn : TouchTurn α) : (s.after turn).WellFormed := by
  cases hcall : turn.call? s.tree with
  | none =>
    cases turn with
    | edit c => exact ⟨hs.tree.after c, hs.keyed⟩
    | _ => cases hcall
  | some call =>
    rw [after_of_call hcall]
    exact ⟨hs.tree, TouchSession.keyed_after hs.keyed call⟩

theorem run (hs : s.WellFormed) (turns : List (TouchTurn α)) : (s.run turns).WellFormed := by
  induction turns generalizing s with
  | nil => exact hs
  | cons turn turns ih => exact ih (hs.after turn)

omit [Scalar α] in
theorem pointer_eq (hs : s.WellFormed) {p : PointerId} (hr : s.touch? p = some r) :
    r.pointer = p :=
  hs.keyed.pointer_eq hr

/-- A view that is not in the tree stays out of it until it is created. -/
theorem not_contains_run (hs : s.WellFormed) {tag : Tag}
    (hnew : ∀ kind, .edit (.create tag kind) ∉ turns) (htag : s.tree.contains tag = false) :
    (s.run turns).tree.contains tag = false := by
  induction turns generalizing s with
  | nil => exact htag
  | cons turn turns ih =>
    refine ih (hs.after turn) (fun kind hmem => hnew kind (List.mem_cons_of_mem _ hmem)) ?_
    cases turn with
    | edit c =>
      apply hs.tree.not_contains_after ?_ htag
      rintro kind rfl
      exact hnew kind List.mem_cons_self
    | _ => exact htag

/-- What one turn makes of a touch that it does not end. -/
theorem touch?_after (hs : s.WellFormed) {p : PointerId} (hr : s.touch? p = some r)
    (hends : turn.ends r = false) : ∃ r', (s.after turn).touch? p = some r' ∧ r'.Continues r ∧
      r'.toTarget = (s.finds? r turn).getD r.toTarget := by
  obtain rfl := hs.pointer_eq hr
  cases hcall : turn.call? s.tree with
  | none =>
    cases turn with
    | edit c => exact ⟨r, hr, .refl r, rfl⟩
    | _ => cases hcall
  | some call =>
    have hcallEnds : call.ends r = false := by
      cases turn with
      | edit c => cases hcall
      | _ =>
        cases hcall
        exact hends
    refine ⟨call.carried s.session.tracker.epsilon r, ?_, call.continues_carried .., ?_⟩
    · rw [after_of_call hcall]
      exact TouchSession.touch?_after_of_not_ends hs.keyed hr hcallEnds
    · rw [finds?]
      cases turn with
      | edit c => cases hcall
      | move p point at_ =>
        cases hcall
        by_cases hp : r.pointer = p
        · have hmoves : (TouchTurn.move p point at_).moves r = true := decide_eq_true hp
          rw [TouchCall.carried, if_pos hp, if_pos hmoves]
          exact Touch.toTarget_relocate _ _ _ _
        · have hmoves : (TouchTurn.move p point at_).moves r = false := decide_eq_false hp
          rw [TouchCall.carried, if_neg hp, hmoves]
          rfl
      | _ =>
        cases hcall
        rfl

/-- A touch that is not ended keeps the last map that it found. -/
theorem touch?_run (hs : s.WellFormed) {p : PointerId} (hr : s.touch? p = some r)
    (hends : ∀ turn ∈ turns, turn.ends r = false) :
    ∃ r', (s.run turns).touch? p = some r' ∧ r'.Continues r ∧
      r'.toTarget = (s.found r turns).getLast?.getD r.toTarget := by
  induction turns generalizing s r with
  | nil => exact ⟨r, hr, .refl r, rfl⟩
  | cons turn turns ih =>
    rw [List.forall_mem_cons] at hends
    obtain ⟨hturn, hturns⟩ := hends
    obtain ⟨r₁, hr₁, hcont₁, hmap₁⟩ := hs.touch?_after hr hturn
    obtain ⟨r₂, hr₂, hcont₂, hmap₂⟩ := ih (hs.after turn) hr₁ fun turn hmem =>
      (hcont₁.ends_eq turn).trans (hturns turn hmem)
    refine ⟨r₂, hr₂, hcont₂.trans hcont₁, ?_⟩
    rw [hmap₂, hmap₁, found_congr hcont₁, found, List.getLast?_append]
    cases (s.after turn).found r turns |>.getLast? <;> cases s.finds? r turn <;> rfl

/-- A touch is told by the map that is found at the time, or else by the one it has. -/
theorem reports (hs : s.WellFormed) {d : Touch α} (hr : s.touch? d.pointer = some r)
    (hcont : r.Continues d) : s.Reports d ((d.mapIn s.tree).getD r.toTarget) := by
  intro point at_
  constructor
  · rw [TouchSession.reply_eq hs.keyed rfl, TouchSession.effect, TouchCall.effect, ← touch?, hr]
    exact hcont.isToldAt _ s.tree point at_
  · rw [TouchSession.reply_eq hs.keyed rfl, TouchSession.effect, TouchCall.effect, ← touch?, hr]
    exact hcont.isToldAt _ s.tree point at_

end WellFormed

theorem Reachable.wellFormed (hs : s.Reachable) : s.WellFormed := by
  obtain ⟨root, epsilon, turns, rfl⟩ := hs
  exact (WellFormed.start root epsilon).run turns

end TouchScene

end ViewHost
