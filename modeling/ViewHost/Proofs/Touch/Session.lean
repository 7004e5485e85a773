import Mathlib
import ViewHost.Proofs.Touch.Lifecycle
import ViewHost.Proofs.Tree.Reachable

/-!
# Touch sessions

A session is a tracker together with what an observer of its calls has written
down: the batches that were handed out, and the contacts that went down, each with
the touch it began as and whether a call has ended it since. Which calls end a
contact can be told from the calls alone. As long as identifiers last, the table
and the updates agree with this record.
-/

namespace ViewHost

variable {α : Type}

/-- A call of a tracker. The tree is the one at the time of the call. -/
inductive TouchCall (α : Type) where
  | down (tree : Tree α) (pointer : PointerId) (kind : PointerKind) (point : Vec2 α)
      (at_ : Timestamp)
  | move (tree : Tree α) (pointer : PointerId) (point : Vec2 α) (at_ : Timestamp)
  | up (tree : Tree α) (pointer : PointerId) (point : Vec2 α) (at_ : Timestamp)
  | cancel (reason : CancelReason) (at_ : Timestamp)
  | setRoot (root : Tag)
  | flush

namespace TouchCall

def isDown : TouchCall α → Bool
  | down .. => true
  | _ => false

/-- Whether the call ends a contact that began as the given touch, if it is down
still. A pointer that goes down again ends the contact it had. -/
def ends : TouchCall α → Touch α → Bool
  | down _ p _ _ _, d | up _ p _ _, d => d.pointer = p
  | cancel reason _, d => d.selectedBy reason
  | move .., _ | setRoot _, _ | flush, _ => false

end TouchCall

/-- A contact that went down. -/
structure Contact (α : Type) where
  /-- The touch as it began. -/
  down : Touch α
  isOver : Bool

/-- The contact after a call. -/
def Contact.under (c : Contact α) (call : TouchCall α) : Contact α :=
  { c with isOver := c.isOver || call.ends c.down }

/-- A tracker and the record of its calls. -/
structure TouchSession (α : Type) where
  tracker : TouchTracker α
  /-- The batches handed out, oldest first. -/
  batches : List (TouchBatch α)
  /-- The contacts in the order they went down. -/
  contacts : List (Contact α)

namespace TouchSession

/-- A tracker with no touches and all identifiers to issue. -/
def start [Scalar α] (root : Tag) (epsilon : α) : TouchSession α :=
  ⟨{ TouchTracker.new root with epsilon := epsilon }, [], []⟩

/-- All updates so far: those handed out, and those still to be. -/
def told (s : TouchSession α) : List (TouchEvent α) :=
  s.batches.flatMap (·.events) ++ s.tracker.pending

/-- The session after a call. -/
def after [Scalar α] (s : TouchSession α) (call : TouchCall α) : TouchSession α :=
  let contacts := s.contacts.map (·.under call)
  match call with
  | .down tree p kind point at_ =>
    let (d, _, tracker) := s.tracker.down tree p kind point at_
    ⟨tracker, s.batches, contacts ++ [⟨d, false⟩]⟩
  | .move tree p point at_ => ⟨(s.tracker.move tree p point at_).2.2, s.batches, contacts⟩
  | .up tree p point at_ => ⟨(s.tracker.up tree p point at_).2.2, s.batches, contacts⟩
  | .cancel reason at_ => ⟨(s.tracker.cancel reason at_).2, s.batches, contacts⟩
  | .setRoot root => ⟨s.tracker.setRoot root, s.batches, contacts⟩
  | .flush =>
    let (batch, tracker) := s.tracker.flush
    ⟨tracker, s.batches ++ batch.toList, contacts⟩

/-- The session after some calls. -/
def run [Scalar α] (s : TouchSession α) (calls : List (TouchCall α)) : TouchSession α :=
  calls.foldl after s

/-- The tracker agrees with the record, and it has numbered the contacts from one. -/
structure Sound (s : TouchSession α) : Prop where
  accounts : s.tracker.Accounts (s.contacts.map (·.down)) s.told
  isOver_iff : ∀ c ∈ s.contacts, c.isOver ↔ c.down.id ∉ s.tracker.touches.map (·.id)
  numbered : s.contacts.map (·.down.id.val.toNat) = List.range' 1 s.contacts.length
  next : s.tracker.nextId.toNat = s.contacts.length + 1

end TouchSession

namespace TouchTracker.Accounts

variable {t : TouchTracker α} {downs : List (Touch α)} {handed : List (TouchEvent α)}
variable {p : PointerId} {r : Touch α}

theorem cancelEach (h : Accounts downs (handed ++ t.pending) t) (at_ : Timestamp)
    (ps : List PointerId) : Accounts downs (handed ++ (t.cancelEach at_ ps).2.pending)
      (t.cancelEach at_ ps).2 := by
  induction ps generalizing t with
  | nil => exact h
  | cons p ps ih =>
    rw [TouchTracker.cancelEach]
    cases hr : t.touch? p with
    | none => exact ih h
    | some r =>
      let r' : Touch α := { r with phase := .cancelled, timestamp := at_ }
      have hr' : r'.Continues r := ⟨rfl, rfl, rfl, rfl⟩
      have hreleased := h.release hr hr' (.inr rfl)
      apply ih (t := (t.release p).announce r')
      rw [pending_announce, ← List.append_assoc]
      exact hreleased.congr rfl

theorem cleared (h : Accounts downs (handed ++ t.pending) t) (p : PointerId) (at_ : Timestamp) :
    Accounts downs (handed ++ (t.cleared p at_).pending) (t.cleared p at_) := by
  rw [TouchTracker.cleared]
  split
  · exact h.cancelEach at_ _
  · exact h

end TouchTracker.Accounts

namespace TouchSession

variable {s : TouchSession α} {t : TouchTracker α} {call : TouchCall α} {p : PointerId}
variable {d : Touch α} {batches : List (TouchBatch α)}

theorem map_down_under (contacts : List (Contact α)) (call : TouchCall α) :
    (contacts.map (·.under call)).map (·.down) = contacts.map (·.down) := by
  rw [List.map_map]
  rfl

namespace Sound

/-- The identifiers issued are those below the next one. -/
theorem id_lt_next (h : s.Sound) {c : Contact α} (hc : c ∈ s.contacts) :
    c.down.id.val.toNat < s.tracker.nextId.toNat := by
  have hmem : c.down.id.val.toNat ∈ s.contacts.map (·.down.id.val.toNat) :=
    List.mem_map.2 ⟨c, hc, rfl⟩
  rw [h.numbered, List.mem_range'_1] at hmem
  have hnext := h.next
  omega

theorem nextId_not_mem (h : s.Sound) :
    ⟨s.tracker.nextId⟩ ∉ (s.contacts.map (·.down)).map (·.id) := by
  intro hmem
  obtain ⟨d, hd, hid⟩ := List.mem_map.1 hmem
  obtain ⟨c, hc, rfl⟩ := List.mem_map.1 hd
  have hlt := h.id_lt_next hc
  rw [hid] at hlt
  exact Nat.lt_irrefl _ hlt

/-- A call that puts no contact on the table keeps the record right if it takes
off those that it ends. -/
theorem under (h : s.Sound)
    (haccounts : t.Accounts (s.contacts.map (·.down)) (batches.flatMap (·.events) ++ t.pending))
    (hids : ∀ d ∈ s.contacts.map (·.down), d.id ∈ t.touches.map (·.id) ↔
      d.id ∈ s.tracker.touches.map (·.id) ∧ call.ends d = false)
    (hnext : t.nextId = s.tracker.nextId) :
    Sound ⟨t, batches, s.contacts.map (·.under call)⟩ where
  accounts := by
    rw [map_down_under]
    exact haccounts
  isOver_iff c hc := by
    obtain ⟨c, hmem, rfl⟩ := List.mem_map.1 hc
    have hover := h.isOver_iff c hmem
    have hids := hids c.down (List.mem_map.2 ⟨c, hmem, rfl⟩)
    simp only [Contact.under, Bool.or_eq_true, hids, hover]
    cases call.ends c.down <;> simp
  numbered := by
    rw [List.length_map, ← h.numbered, List.map_map]
    rfl
  next := by
    rw [List.length_map, ← h.next]
    exact congrArg UInt64.toNat hnext

/-- A contact that goes down gets the next identifier. -/
theorem began (h : s.Sound) (hp : s.tracker.touch? p = none) (hpointer : d.pointer = p)
    (hphase : d.phase = .began) (hid : d.id = ⟨s.tracker.nextId⟩)
    (hroom : s.contacts.length + 2 < 2 ^ 64)
    (hactive : t.active = (s.tracker.hold p d).active)
    (hpending : t.pending = s.tracker.pending ++ d.event?.toList)
    (hnext : t.nextId = s.tracker.nextId + 1) :
    Sound ⟨t, s.batches, s.contacts ++ [⟨d, false⟩]⟩ where
  accounts := by
    have hbegun := h.accounts.begin hp hpointer (hid ▸ h.nextId_not_mem) hphase
    rw [told, List.append_assoc] at hbegun
    rw [told, hpending, List.map_append]
    exact hbegun.congr hactive
  isOver_iff c hc := by
    rw [TouchTracker.touches, hactive, TouchTracker.active_hold_of_none hp, List.map_cons,
      List.map_cons, List.mem_cons, not_or]
    rcases List.mem_append.1 hc with hc | hc
    · have hne : c.down.id ≠ d.id := by
        intro he
        apply h.nextId_not_mem
        rw [← hid, ← he]
        exact List.mem_map.2 ⟨c.down, List.mem_map.2 ⟨c, hc, rfl⟩, rfl⟩
      rw [h.isOver_iff c hc, and_iff_right hne]
      rfl
    · simp [List.mem_singleton.1 hc]
  numbered := by
    rw [List.map_append, h.numbered, List.length_append, List.length_singleton,
      List.range'_1_concat, List.map_singleton, hid, h.next, Nat.add_comm 1]
  next := by
    rw [hnext, UInt64.toNat_add, h.next, List.length_append, List.length_singleton]
    have hone : (1 : UInt64).toNat = 1 := rfl
    omega

variable [Scalar α] {tree : Tree α} {kind : PointerKind} {point : Vec2 α} {at_ : Timestamp}
variable {reason : CancelReason} {root : Tag}

theorem down (h : s.Sound) (hroom : s.contacts.length + 2 < 2 ^ 64) :
    (s.after (.down tree p kind point at_)).Sound := by
  let t₁ := s.tracker.cleared p at_
  have hkeyed := h.accounts.keyed
  -- the contact that the pointer still has is over before the new one begins
  have h₁ : Sound ⟨t₁, s.batches, s.contacts.map (·.under (.down tree p kind point at_))⟩ := by
    refine h.under (h.accounts.cleared p at_) (fun d hd => ?_) (TouchTracker.nextId_cleared ..)
    refine h.accounts.mem_ids_iff_of_filter hd (TouchTracker.active_cleared hkeyed p at_) ?_
    intro x hx hxd
    rw [← hkeyed.own x hx, hxd.pointer, decide_not]
    rfl
  have hfree : t₁.issueId.1 = ⟨t₁.nextId⟩ := by
    have hmem : ⟨t₁.nextId⟩ ∉ t₁.touches.map (·.id) := by
      intro hmem
      obtain ⟨r, hr, hid⟩ := List.mem_map.1 hmem
      obtain ⟨d, hd, hrd⟩ := h₁.accounts.held r hr
      exact h₁.nextId_not_mem (List.mem_map.2 ⟨d, hd, hrd.id.symm.trans hid⟩)
    have h0 : t₁.nextId ≠ 0 := by
      intro h0
      have hnext := h₁.next
      rw [show t₁.nextId.toNat = 0 from congrArg UInt64.toNat h0] at hnext
      omega
    exact congrArg TouchId.mk (TouchTracker.freeId_of_not_mem h0 hmem _)
  have hnext : t₁.issueId.2.2.nextId = t₁.nextId + 1 := congrArg (·.val + 1) hfree
  refine h₁.began (TouchTracker.touch?_cleared hkeyed p at_) rfl rfl hfree ?_ rfl rfl hnext
  rwa [List.length_map]

theorem move (h : s.Sound) : (s.after (.move tree p point at_)).Sound := by
  simp only [after, TouchTracker.move]
  cases hr : s.tracker.touch? p with
  | none => exact h.under h.accounts (fun _ _ => (and_iff_left rfl).symm) rfl
  | some r =>
    let phase : TouchPhase :=
      if r.rootLocation.fartherThan point s.tracker.epsilon then .moved else .stationary
    let r' := ({ r with phase := phase } : Touch α).relocate tree point at_
    have hr' : r'.Continues r := .relocate (.refl r) phase tree point at_
    have hphase : r'.phase = .moved ∨ r'.phase = .stationary := by
      change phase = _ ∨ phase = _
      by_cases hfar : r.rootLocation.fartherThan point s.tracker.epsilon <;> simp [phase, hfar]
    have hheld := h.accounts.hold hr hr' hphase
    rw [told, List.append_assoc] at hheld
    refine h.under (hheld.congr rfl) (fun d _ => ?_) rfl
    exact (h.accounts.mem_ids_hold_iff hr hr').trans (and_iff_left rfl).symm

theorem up (h : s.Sound) : (s.after (.up tree p point at_)).Sound := by
  have hkeyed := h.accounts.keyed
  have hids : ∀ {t : TouchTracker α}, t.active = (s.tracker.release p).active →
      ∀ d ∈ s.contacts.map (·.down), d.id ∈ t.touches.map (·.id) ↔
        d.id ∈ s.tracker.touches.map (·.id) ∧
          (TouchCall.up tree p point at_).ends d = false := by
    intro t ht d hd
    refine h.accounts.mem_ids_iff_of_filter hd ht fun x hx hxd => ?_
    rw [← hkeyed.own x hx, hxd.pointer, decide_not]
    rfl
  simp only [after, TouchTracker.up]
  cases hr : s.tracker.touch? p with
  | none => exact h.under h.accounts (hids (TouchTracker.active_release_of_none hr).symm) rfl
  | some r =>
    let r' := ({ r with phase := .ended } : Touch α).relocate tree point at_
    have hr' : r'.Continues r := .relocate (.refl r) .ended tree point at_
    have hreleased := h.accounts.release hr hr' (.inl rfl)
    rw [told, List.append_assoc] at hreleased
    exact h.under (hreleased.congr rfl) (hids rfl) rfl

theorem cancel (h : s.Sound) : (s.after (.cancel reason at_)).Sound := by
  refine h.under (h.accounts.cancelEach at_ _) (fun d hd => ?_) (TouchTracker.nextId_cancelEach ..)
  refine h.accounts.mem_ids_iff_of_filter hd
    (TouchTracker.active_cancel h.accounts.keyed reason at_) fun x _ hxd => ?_
  rw [hxd.selectedBy_eq]
  rfl

theorem setRoot (h : s.Sound) : (s.after (.setRoot root)).Sound := by
  refine h.under (h.accounts.congr rfl) (fun d _ => ?_) rfl
  exact (and_iff_left rfl).symm

/-- A batch is handed out with all that is pending, so nothing is told anew. -/
theorem flush (h : s.Sound) : (s.after .flush).Sound := by
  simp only [after, TouchTracker.flush]
  split
  · next hempty =>
    refine h.under ?_ (fun _ _ => (and_iff_left rfl).symm) rfl
    rw [Option.toList_none, List.append_nil]
    exact h.accounts
  · refine h.under ?_ (fun _ _ => (and_iff_left rfl).symm) rfl
    let batch : TouchBatch α := ⟨s.tracker.batches + 1, s.tracker.pending⟩
    have htold : (s.batches ++ [batch]).flatMap (·.events) ++ [] = s.told := by
      simp [told, batch]
    rw [Option.toList_some, htold]
    exact h.accounts.congr rfl

/-- Every call keeps the record right, as long as there is an identifier left for
a contact that goes down. -/
theorem after (h : s.Sound) (call : TouchCall α)
    (hroom : call.isDown → s.contacts.length + 2 < 2 ^ 64) : (s.after call).Sound := by
  cases call with
  | down => exact h.down (hroom rfl)
  | move => exact h.move
  | up => exact h.up
  | cancel => exact h.cancel
  | setRoot => exact h.setRoot
  | flush => exact h.flush

end Sound

variable [Scalar α]

theorem sound_start (root : Tag) (epsilon : α) : (start root epsilon).Sound where
  accounts := ⟨⟨.nil, by simp [start, TouchTracker.new]⟩, .nil,
    by simp [start, TouchTracker.new, TouchTracker.touches], by simp [start],
    by simp [start, told, TouchTracker.new]⟩
  isOver_iff := by simp [start]
  numbered := rfl
  next := rfl

theorem length_contacts_after (s : TouchSession α) (call : TouchCall α) :
    (s.after call).contacts.length = s.contacts.length + if call.isDown then 1 else 0 := by
  cases call <;> simp [after, TouchCall.isDown]

/-- A run keeps the record right if it leaves an identifier unissued. -/
theorem Sound.run {s : TouchSession α} (h : s.Sound) {calls : List (TouchCall α)}
    (hroom : s.contacts.length + calls.countP (·.isDown) < 2 ^ 64 - 1) : (s.run calls).Sound := by
  induction calls generalizing s with
  | nil => exact h
  | cons call calls ih =>
    rw [List.countP_cons] at hroom
    refine ih (h.after call fun hdown => ?_) ?_
    · rw [if_pos hdown] at hroom
      omega
    · rw [length_contacts_after]
      omega

/-- Identifiers ascend in the order of the contacts. The updates of each contact
tell of one life, with the target it hit when it went down and up to its end if it
is over, or nothing if it hit nothing, and there are no other updates. The contacts
that are not over are those on the table, each under its own pointer. -/
theorem contacts_live_once (root : Tag) (epsilon : α) (calls : List (TouchCall α))
    (hfew : calls.countP (·.isDown) < 2 ^ 64 - 1) :
    let s := (start root epsilon).run calls
    (s.contacts.map (·.down.id.val)).Pairwise (· < ·) ∧
    (∀ c ∈ s.contacts,
      Lived c.down.target c.isOver (s.told.filter (·.identifier = c.down.id))) ∧
    (∀ e ∈ s.told, ∃ c ∈ s.contacts, c.down.id = e.identifier) ∧
    (∀ i, i ∈ s.tracker.activeTouches.map (·.id) ↔
      ∃ c ∈ s.contacts, c.down.id = i ∧ c.isOver = false) ∧
    (s.tracker.activeTouches.map (·.pointer)).Nodup ∧
    ∀ p r, s.tracker.touch? p = some r ↔ r ∈ s.tracker.activeTouches ∧ r.pointer = p := by
  intro s
  have h : s.Sound := (sound_start root epsilon).run (by simpa [start] using hfew)
  have hperm : s.tracker.activeTouches.Perm s.tracker.touches := List.mergeSort_perm _ _
  have hdowns : ∀ c ∈ s.contacts, c.down ∈ s.contacts.map (·.down) := fun c hc =>
    List.mem_map.2 ⟨c, hc, rfl⟩
  refine ⟨?_, fun c hc => ?_, fun e he => ?_, fun i => ?_, ?_, fun p r => ?_⟩
  · have hasc : (s.contacts.map (·.down.id.val.toNat)).Pairwise (· < ·) := by
      rw [h.numbered]
      exact List.pairwise_lt_range'
    rw [List.pairwise_map] at hasc ⊢
    exact hasc.imp UInt64.lt_iff_toNat_lt.2
  · obtain ⟨isOver, hover, hlived⟩ := h.accounts.lived c.down (hdowns c hc)
    rwa [show c.isOver = isOver from Bool.eq_iff_iff.2 ((h.isOver_iff c hc).trans hover.symm)]
  · obtain ⟨d, hd, hid⟩ := h.accounts.known e he
    obtain ⟨c, hc, rfl⟩ := List.mem_map.1 hd
    exact ⟨c, hc, hid⟩
  · rw [(hperm.map _).mem_iff]
    constructor
    · intro hi
      obtain ⟨r, hr, rfl⟩ := List.mem_map.1 hi
      obtain ⟨d, hd, hrd⟩ := h.accounts.held r hr
      obtain ⟨c, hc, rfl⟩ := List.mem_map.1 hd
      refine ⟨c, hc, hrd.id.symm, Bool.not_eq_true _ ▸ fun hover => (h.isOver_iff c hc).1 hover ?_⟩
      exact hrd.id ▸ hi
    · rintro ⟨c, hc, rfl, hover⟩
      by_contra hi
      exact Bool.false_ne_true (hover.symm.trans ((h.isOver_iff c hc).2 hi))
  · rw [(hperm.map _).nodup_iff, TouchTracker.touches, List.map_map]
    rw [show s.tracker.active.map ((·.pointer) ∘ (·.2)) = s.tracker.active.map (·.1) from
      List.map_congr_left h.accounts.keyed.own]
    exact h.accounts.keyed.nodup
  · rw [h.accounts.keyed.touch?_eq_some_iff, hperm.mem_iff, TouchTracker.mem_touches_iff]
    constructor
    · intro hr
      exact ⟨⟨_, hr, rfl⟩, h.accounts.keyed.own _ hr⟩
    · rintro ⟨⟨x, hx, rfl⟩, rfl⟩
      rwa [h.accounts.keyed.own x hx]

/-- One pointer goes down twice, another one misses the only view, and the first
one goes up after the updates were handed out. -/
def downAgain : List (TouchCall Rat) :=
  let tree := [.create ⟨1⟩ .view, .setFrame ⟨1⟩ ⟨0, 0, 100, 100⟩].foldl Tree.after .empty
  [.down tree ⟨4⟩ .touch ⟨5, 5⟩ .zero, .move tree ⟨4⟩ ⟨6, 5⟩ .zero,
    .down tree ⟨4⟩ .touch ⟨7, 5⟩ .zero, .down tree ⟨9⟩ .touch ⟨200, 5⟩ .zero, .flush,
    .up tree ⟨4⟩ ⟨8, 5⟩ .second]

theorem downAgain_lives : downAgain.countP (·.isDown) < 2 ^ 64 - 1 ∧
    let s := (start ⟨1⟩ 0).run downAgain
    (s.contacts.map fun c => (c.down.id, c.down.target, c.isOver)) =
      [(⟨1⟩, some ⟨1⟩, true), (⟨2⟩, some ⟨1⟩, true), (⟨3⟩, none, false)] ∧
    (∀ c ∈ s.contacts,
      Lived c.down.target c.isOver (s.told.filter (·.identifier = c.down.id))) ∧
    (⟨3⟩ : TouchId) ∈ s.tracker.activeTouches.map (·.id) := by
  have hfew : downAgain.countP (·.isDown) < 2 ^ 64 - 1 := by decide
  have hcontacts : (((start ⟨1⟩ 0).run downAgain).contacts.map
      fun c => (c.down.id, c.down.target, c.isOver)) =
      [(⟨1⟩, some ⟨1⟩, true), (⟨2⟩, some ⟨1⟩, true), (⟨3⟩, none, false)] := by cbv
  have h := contacts_live_once ⟨1⟩ 0 downAgain hfew
  refine ⟨hfew, hcontacts, h.2.1, (h.2.2.2.1 _).2 ?_⟩
  have hlast : ((⟨3⟩, none, false) : TouchId × Option Tag × Bool) ∈
      ((start ⟨1⟩ 0).run downAgain).contacts.map
        fun c => (c.down.id, c.down.target, c.isOver) := by
    rw [hcontacts]
    decide
  obtain ⟨c, hc, heq⟩ := List.mem_map.1 hlast
  exact ⟨c, hc, congrArg Prod.fst heq, congrArg (·.2.2) heq⟩

end TouchSession

end ViewHost
