import ViewHost.Proofs.Host.Served

/-!
# Host sessions

A session is a host together with what its consumer has taken. Whatever calls are
made and whatever callbacks there are, the items taken, those in the queue, those in
the outbox and the updates still pending add up to the journal of the input so far,
in this order. Frames and takes move items from one place to the next, and the
journal does not notice.

Calls may stop short, and what has become of the host by then counts. When a host is
shut down, its scheduler, its registry and the consumer's end of its queue are still
there, and what is in the queue can be taken.
-/

namespace ViewHost

variable {α κ ω β : Type}

/-- A call of a host, or of the consumer's end of its queue. -/
inductive HostCall (α κ : Type) where
  | apply (c : Command α)
  | applyAll (cs : List (Command α))
  | pointer (e : PointerEvent α)
  | input (e : InputEvent α)
  | setRoot (root : Tag) (at_ : Timestamp)
  /-- A call of the scheduler or the registry. -/
  | request (r : Request κ)
  | tick (now : Timestamp)
  /-- A tick, after which the consumer takes all items. -/
  | pump (now : Timestamp)
  | receive
  | drain
  | shutDown

namespace HostCall

/-- A call that does not need the host to be there still. -/
def outlives : HostCall α κ → Bool
  | receive | drain | request _ => true
  | _ => false

def isShutDown : HostCall α κ → Bool
  | shutDown => true
  | _ => false

/-- The input that there may be something to report of. -/
def input? : HostCall α κ → Option (HostInput α)
  | apply c => some (.commands [c])
  | applyAll cs => some (.commands cs)
  | pointer e | input (.pointer e) => some (.pointer e)
  | setRoot root at_ => some (.setRoot root at_)
  | _ => none

/-- The input of some calls, up to the end of the host. -/
def inputs (calls : List (HostCall α κ)) : List (HostInput α) :=
  (calls.takeWhile (!·.isShutDown)).filterMap input?

/-- An operation that hands nothing to the consumer. -/
def quietly (m : Host.Act α κ ω β) : Host.Act α κ ω (List (Outbound α)) := do
  let _ ← m
  return []

/-- What a call does. The answer is what the consumer takes. -/
def act [Scalar α] (b : Behaviour κ ω) (budget : Nat) :
    HostCall α κ → Host.Act α κ ω (List (Outbound α))
  | apply c => quietly (modify fun h => (h.apply c).toOption.getD h)
  | applyAll cs => quietly (modify fun h => (h.applyAll cs).2)
  | pointer e => quietly (Host.handlePointer b budget e)
  | input e => quietly (Host.handleInput b budget e)
  | setRoot root at_ => quietly (Host.setRoot b budget root at_)
  | request r => quietly (Host.request b budget r)
  | tick now => quietly (Host.tick b budget now)
  | pump now => Host.pump b budget now
  | receive => modifyGet fun h => (h.receive.1.toList, h.receive.2)
  | drain => modifyGet fun h => h.drain
  | shutDown => quietly (Host.shutDown b budget)

end HostCall

/-- A host and what its consumer has taken. -/
structure HostSession (α κ ω : Type) where
  host : Host α κ ω
  /-- Oldest first. -/
  taken : List (Outbound α)

namespace HostSession

def start [Scalar α] (root : Tag) (config : HostConfig α) (client : ω) : HostSession α κ ω :=
  ⟨.new root config client, []⟩

/-- The items that have gone to the queue, whether they are there still or not. -/
def sent (s : HostSession α κ ω) : List (Outbound α) := s.taken ++ s.host.shared.outbound.items

/-- The number of ticks so far. -/
def ticks (s : HostSession α κ ω) : Nat := s.host.world.frames.delivered

def journal (s : HostSession α κ ω) : Journal α := s.host.journal s.taken

/-- The session after an operation, which may have stopped short. -/
def step (s : HostSession α κ ω) (m : Host.Act α κ ω (List (Outbound α))) : HostSession α κ ω :=
  match m s.host with
  | .ok items host => ⟨host, s.taken ++ items⟩
  | .error _ host => ⟨host, s.taken⟩

/-- The session after a call. -/
def after [Scalar α] (b : Behaviour κ ω) (budget : Nat) (s : HostSession α κ ω)
    (call : HostCall α κ) : HostSession α κ ω :=
  if s.host.isClosed && !call.outlives then s else s.step (call.act b budget)

/-- The session after some calls, each with a budget for callbacks of its own. -/
def run [Scalar α] (b : Behaviour κ ω) (s : HostSession α κ ω)
    (calls : List (Nat × HostCall α κ)) : HostSession α κ ω :=
  calls.foldl (fun s call => s.after b call.1 call.2) s

/-- Batches are numbered and apart, the host's own callback is where it belongs, and
the queue takes items in until the host is closed. After that nothing waits any more. -/
structure Sound (s : HostSession α κ ω) : Prop where
  numbered : Outbound.Numbered (s.taken ++ s.host.shared.items) s.host.shared.touches.batches
  spaced : s.host.shared.Spaced
  tame : s.host.Tame
  live : s.host.isClosed = false → s.host.shared.outbound.Live
  idle : s.host.isClosed = true →
    s.host.shared.touches.pending = [] ∧ s.host.shared.outbox = []

/-- What becomes of a session by an operation that `next` is written down for. Items
only go to the queue at a tick, and no two batches that go there together meet. -/
structure Advances (next : Journal α → Journal α) (s s' : HostSession α κ ω) : Prop where
  sound : s'.Sound
  journal : s'.journal = next s.journal
  isClosed : s'.host.isClosed = s.host.isClosed
  sent : ∃ pushed, s'.sent = s.sent ++ pushed ∧ pushed.IsChain Outbound.Apart ∧
    (pushed ≠ [] → s.ticks < s'.ticks)

/-- A session in which nothing has been sent and written down anew. -/
structure Stays (s s' : HostSession α κ ω) : Prop where
  sound : s'.Sound
  journal : s'.journal = s.journal
  isClosed : s'.host.isClosed = s.host.isClosed
  sent : s'.sent = s.sent

open Run

variable {s s' s'' : HostSession α κ ω} {next : Journal α → Journal α} {h' : Host α κ ω}

/-- The log, as it goes through the items that have been queued and the pending updates. -/
theorem log_journal (s : HostSession α κ ω) : s.journal.log =
    (s.sent ++ s.host.shared.outbox).flatMap (·.reports) ++
      s.host.shared.touches.pending.map .touch := by
  rw [sent, List.append_assoc, List.flatMap_append, List.append_assoc]
  rfl

theorem Stays.refl (hs : s.Sound) : Stays s s := ⟨hs, rfl, rfl, rfl⟩

theorem Stays.trans (h : Stays s s') (h' : Stays s' s'') : Stays s s'' where
  sound := h'.sound
  journal := h'.journal.trans h.journal
  isClosed := h'.isClosed.trans h.isClosed
  sent := h'.sent.trans h.sent

theorem Stays.advances (h : Stays s s') : Advances id s s' :=
  ⟨h.sound, h.journal, h.isClosed, [], by rw [h.sent, List.append_nil], .nil,
    fun hne => (hne rfl).elim⟩

theorem Advances.trans_stays (h : Advances next s s') (h' : Stays s' s'')
    (hticks : s''.ticks = s'.ticks) : Advances next s s'' where
  sound := h'.sound
  journal := h'.journal.trans h.journal
  isClosed := h'.isClosed.trans h.isClosed
  sent := by rw [h'.sent, hticks]; exact h.sent

/-- The line of reports is as it was. -/
theorem Sound.of_line (hs : s.Sound) (htame : h'.Tame) (hserved : Host.Served s.host h')
    (hline : h'.shared.line = s.host.shared.line) : Stays s ⟨h', s.taken⟩ := by
  have hitems := Shared.items_congr hline
  have hreports := Shared.reports_congr hline
  simp only [Shared.line, Prod.mk.injEq] at hline
  obtain ⟨htouches, houtbox, houtbound⟩ := hline
  have hclosed : h'.isClosed = s.host.isClosed := by rw [hserved.eq_with_world]
  refine ⟨⟨?_, ?_, htame, ?_, ?_⟩, ?_, hclosed, ?_⟩
  · rw [hitems, htouches]
    exact hs.numbered
  · rw [Shared.Spaced, houtbox]
    exact hs.spaced
  · rw [hclosed, houtbound]
    exact hs.live
  · rw [hclosed, htouches, houtbox]
    exact hs.idle
  · exact hserved.journal_eq (by rw [htouches]) hreports s.taken
  · rw [HostSession.sent, houtbound]
    rfl

/-- All that waited has gone to the queue. -/
theorem Sound.of_flush (hs : s.Sound) (hopen : s.host.isClosed = false) (htame : h'.Tame)
    (hserved : Host.Served s.host h') (hline : h'.shared.line = s.host.shared.flush.line)
    (hticks : s.ticks < h'.world.frames.delivered) : Advances id s ⟨h', s.taken⟩ := by
  have hlive := hs.live hopen
  have hitems := (Shared.items_congr hline).trans (Shared.items_flush hlive)
  have hreports := (Shared.reports_congr hline).trans (Shared.reports_flush hlive)
  have hsent := Shared.outbound_flush hlive
  simp only [Shared.line, Prod.mk.injEq] at hline
  obtain ⟨htouches, houtbox, houtbound⟩ := hline
  have hclosed : h'.isClosed = s.host.isClosed := by rw [hserved.eq_with_world]
  refine ⟨⟨?_, ?_, htame, fun _ => ?_, fun h => ?_⟩, ?_, hclosed, s.host.shared.waiting, ?_,
    hs.spaced.waiting, fun _ => hticks⟩
  · rw [hitems, htouches]
    exact Shared.numbered_sealPending hs.numbered
  · rw [Shared.Spaced, houtbox]
    exact fun _ => .singleton _
  · rw [houtbound]
    exact hlive.pushAll _
  · rw [hclosed, hopen] at h
    cases h
  · have hquiet : h'.shared.touches.quiet = s.host.shared.touches.quiet := by
      rw [htouches]
      exact TouchTracker.quiet_flush _
    exact hserved.journal_eq hquiet hreports s.taken
  · rw [HostSession.sent, houtbound, hsent, ← List.append_assoc]
    rfl

/-- Nothing waits any more when the host is closed. -/
theorem Sound.served_of_closed (hs : s.Sound) (hclosed : s.host.isClosed = true) (htame : h'.Tame)
    (hserved : Host.Served s.host h') : Stays s ⟨h', s.taken⟩ := by
  obtain ⟨hpending, houtbox⟩ := hs.idle hclosed
  rcases hserved.outside.1.2 with hline | hline
  · exact hs.of_line htame hserved hline
  · exact hs.of_line htame hserved (hline.trans (Shared.line_flush_of_idle hpending houtbox))

/-- Callbacks do not add to the journal, and they move items at a tick only. -/
theorem Sound.served (hs : s.Sound) (htame : h'.Tame) (hserved : Host.Served s.host h') :
    Advances id s ⟨h', s.taken⟩ := by
  obtain ⟨⟨hticks, hmoved⟩, hstill⟩ := hserved.outside
  by_cases hsame : h'.world.frames.delivered = s.ticks
  · exact (hs.of_line htame hserved (hstill hsame)).advances
  · have hlt : s.ticks < h'.world.frames.delivered := Nat.lt_of_le_of_ne hticks (Ne.symm hsame)
    cases hclosed : s.host.isClosed with
    | false =>
      rcases hmoved with hline | hline
      · exact (hs.of_line htame hserved hline).advances
      · exact hs.of_flush hclosed htame hserved hline hlt
    | true => exact (hs.served_of_closed hclosed htame hserved).advances

/-- Taking note keeps all in order. -/
theorem Sound.noted (hs : s.Sound) (hopen : s.host.isClosed = false)
    (hn : Host.Noted next s.host h') : (⟨h', s.taken⟩ : HostSession α κ ω).Sound where
  numbered := hn.numbered s.taken hs.numbered
  spaced := hn.spaced hs.spaced
  tame := hn.tame hs.tame
  live h := hn.outbound ▸ hs.live (hn.isClosed ▸ h)
  idle h := by
    rw [hn.isClosed, hopen] at h
    cases h

/-- An operation that takes note first. -/
theorem Sound.notes {m : Host.Act α κ ω β} (hs : s.Sound) (hopen : s.host.isClosed = false)
    (hm : Host.NotesAt next m s.host) : Advances next s ⟨final m s.host, s.taken⟩ := by
  obtain ⟨h₁, hnoted, htame, hserved⟩ := hm hs.tame
  have h := (hs.noted hopen hnoted).served htame hserved
  obtain ⟨pushed, hsent, hapart, hticks⟩ := h.sent
  refine ⟨h.sound, h.journal.trans (hnoted.journal s.taken), h.isClosed.trans hnoted.isClosed,
    pushed, hsent.trans ?_, hapart, fun hne => ?_⟩
  · rw [HostSession.sent, hnoted.outbound]
    rfl
  · have hlt := hticks hne
    rw [HostSession.ticks, hnoted.frames] at hlt
    exact hlt

/-- The consumer takes some items from the front of the queue. -/
theorem Sound.takes (hs : s.Sound) {items rest : List (Outbound α)}
    (hitems : s.host.shared.outbound.items = items ++ rest) :
    let q := { s.host.shared.outbound with items := rest }
    Stays s ⟨s.host.setShared { s.host.shared with outbound := q }, s.taken ++ items⟩ := by
  intro q
  have happend : s.taken ++ items ++ (rest ++ s.host.shared.outbox) =
      s.taken ++ s.host.shared.items := by
    rw [Shared.items, hitems, List.append_assoc, List.append_assoc]
  refine ⟨⟨?_, hs.spaced, ⟨hs.tame.frames, hs.tame.keys⟩, ?_, hs.idle⟩, ?_, rfl, ?_⟩
  · change Outbound.Numbered (s.taken ++ items ++ (rest ++ s.host.shared.outbox)) _
    rw [happend]
    exact hs.numbered
  · exact fun hopen => ⟨(hs.live hopen).isOpen, (hs.live hopen).hasReceiver⟩
  · have hlog : (s.taken ++ items).flatMap (·.reports) ++
        ((rest ++ s.host.shared.outbox).flatMap (·.reports) ++
          s.host.shared.touches.pending.map .touch) = s.journal.log := by
      rw [← List.append_assoc, ← List.flatMap_append, happend, List.flatMap_append,
        List.append_assoc]
      rfl
    exact congrArg (Journal.mk _ _ _ _ _) hlog
  · rw [HostSession.sent, HostSession.sent, hitems]
    exact List.append_assoc ..

/-- The first thing at the end of a host: all that waits goes to the queue. -/
theorem Sound.closing (hs : s.Sound) (hopen : s.host.isClosed = false) :
    let h := { s.host with isClosed := true }.setShared s.host.shared.flush
    let s' : HostSession α κ ω := ⟨h, s.taken⟩
    s'.Sound ∧ s'.journal = s.journal ∧ s'.sent = s.sent ++ s.host.shared.waiting := by
  intro h s'
  have hlive := hs.live hopen
  refine ⟨⟨?_, fun _ => .singleton _, ⟨hs.tame.frames, hs.tame.keys⟩, nofun,
    fun _ => ⟨Shared.pending_sealPending _, rfl⟩⟩, ?_, ?_⟩
  · change Outbound.Numbered (s.taken ++ s.host.shared.flush.items) _
    rw [Shared.items_flush hlive]
    exact Shared.numbered_sealPending hs.numbered
  · have hquiet : h.shared.touches.quiet = s.host.shared.touches.quiet :=
      TouchTracker.quiet_flush _
    have hreports : h.shared.reports = s.host.shared.reports := Shared.reports_flush hlive
    refine Host.journal_congr ?_ ?_ ?_ ?_ hquiet hreports s.taken
    all_goals rfl
  · change s.taken ++ s.host.shared.flush.outbound.items = _
    rw [Shared.outbound_flush hlive, ← List.append_assoc]
    rfl

/-- The last thing at the end of a host: shortcuts are forgotten and the queue is
closed. -/
theorem Sound.closed (hs : s.Sound) (hclosed : s.host.isClosed = true) :
    let h : Host α κ ω := { s.host with
      world := { s.host.world with keys := s.host.world.keys.clear } }
    Stays s ⟨h.setShared { h.shared with outbound := h.shared.outbound.close }, s.taken⟩ := by
  refine ⟨⟨hs.numbered, hs.spaced, ⟨hs.tame.frames, .clear⟩, fun h => ?_, hs.idle⟩, rfl, rfl, rfl⟩
  cases hclosed.symm.trans h

/-! ## Calls -/

theorem step_of_ok {m : Host.Act α κ ω (List (Outbound α))} {items : List (Outbound α)}
    (hm : m s.host = .ok items h') : s.step m = ⟨h', s.taken ++ items⟩ := by rw [step, hm]

theorem step_of_error {m : Host.Act α κ ω (List (Outbound α))} {e : Halt}
    (hm : m s.host = .error e h') : s.step m = ⟨h', s.taken⟩ := by rw [step, hm]

theorem step_quietly (s : HostSession α κ ω) (m : Host.Act α κ ω β) :
    s.step (HostCall.quietly m) = ⟨final m s.host, s.taken⟩ := by
  cases hm : m s.host with
  | ok b h' =>
    have hquietly : HostCall.quietly m s.host = .ok [] h' := by
      simp [HostCall.quietly, bind, EStateM.bind, hm, pure, EStateM.pure]
    rw [step_of_ok hquietly, final_of_ok hm, List.append_nil]
  | error e h' =>
    have hquietly : HostCall.quietly m s.host = .error e h' := by
      simp [HostCall.quietly, bind, EStateM.bind, hm]
    rw [step_of_error hquietly, final_of_error hm]

/-- An operation that takes note first and hands nothing over. -/
theorem Sound.quietly {m : Host.Act α κ ω β} (hs : s.Sound) (hopen : s.host.isClosed = false)
    (hm : Host.NotesAt next m s.host) : Advances next s (s.step (HostCall.quietly m)) := by
  rw [step_quietly]
  exact hs.notes hopen hm

variable (b : Behaviour κ ω) (budget : Nat)

/-- The rest of the end of a host, when all that waited has been moved: the callbacks are let
go and the queue is closed. -/
def letGo : Host.Act α κ ω Unit := do
  Host.Act.control b budget Control.clearFrames
  modify fun h => { h with world := { h.world with keys := h.world.keys.clear } }
  Host.Act.modifyShared fun s => { s with outbound := s.outbound.close }

theorem shutDown_of_open {h : Host α κ ω} (hopen : h.isClosed = false) :
    Host.shutDown b budget h =
      letGo b budget ({ h with isClosed := true }.setShared h.shared.flush) := by
  unfold Host.shutDown
  exact congrFun (if_neg (by simp [hopen])) _

/-- All that waits goes to the queue, and nothing else does. -/
theorem Sound.shutDown (hs : s.Sound) (hopen : s.host.isClosed = false) :
    let s' := s.step (HostCall.quietly (Host.shutDown b budget))
    s'.Sound ∧ s'.journal = s.journal ∧ s'.host.isClosed = true ∧
      s'.sent = s.sent ++ s.host.shared.waiting := by
  rw [step_quietly]
  let h₁ : Host α κ ω := { s.host with isClosed := true }.setShared s.host.shared.flush
  have hfinal : final (Host.shutDown b budget) s.host = final (letGo b budget) h₁ := by
    rw [final, shutDown_of_open b budget hopen, final]
  obtain ⟨hs₁, hjournal, hsent⟩ := hs.closing hopen
  obtain ⟨htame₂, hserved⟩ := Host.serves_clearFrames b budget h₁ hs₁.tame
  have hstays := hs₁.served_of_closed rfl htame₂ hserved
  rw [hfinal, letGo]
  cases hclear : Host.Act.control b budget Control.clearFrames h₁ with
  | ok u h₂ =>
    rw [final_of_ok hclear] at hstays
    have hlast := hstays.sound.closed hstays.isClosed
    rw [final_bind_of_ok hclear]
    exact ⟨hlast.sound, hlast.journal.trans (hstays.journal.trans hjournal),
      hlast.isClosed.trans hstays.isClosed, hlast.sent.trans (hstays.sent.trans hsent)⟩
  | error e h₂ =>
    rw [final_of_error hclear] at hstays
    rw [final_bind_of_error hclear]
    exact ⟨hstays.sound, hstays.journal.trans hjournal, hstays.isClosed, hstays.sent.trans hsent⟩

variable [Scalar α]

theorem Sound.receive (hs : s.Sound) :
    Stays s (s.step ((HostCall.receive : HostCall α κ).act b budget)) := by
  have hitems : s.host.shared.outbound.items =
      s.host.shared.outbound.items.head?.toList ++ s.host.shared.outbound.items.tail := by
    cases s.host.shared.outbound.items <;> rfl
  rw [step_of_ok (m := (HostCall.receive : HostCall α κ).act b budget) rfl, Host.receive,
    DeliveryQueue.receive_eq]
  exact hs.takes hitems

theorem Sound.drain (hs : s.Sound) :
    Stays s (s.step ((HostCall.drain : HostCall α κ).act b budget)) :=
  hs.takes (List.append_nil _).symm

theorem Sound.pump (hs : s.Sound) (hopen : s.host.isClosed = false) (now : Timestamp) :
    Advances id s (s.step ((HostCall.pump now : HostCall α κ).act b budget)) := by
  rw [HostCall.act]
  have htick := hs.notes hopen (.of_serves (Host.serves_tick b budget now))
  cases hrun : Host.tick b budget now s.host with
  | ok tick h' =>
    rw [final_of_ok hrun] at htick
    have hpump : Host.pump b budget now s.host = .ok h'.drain.1 h'.drain.2 := by
      simp only [Host.pump, bind, EStateM.bind, hrun]
      rfl
    rw [step_of_ok hpump]
    exact htick.trans_stays (htick.sound.drain b budget) rfl
  | error e h' =>
    rw [final_of_error hrun] at htick
    have hpump : Host.pump b budget now s.host = .error e h' := by
      simp only [Host.pump, bind, EStateM.bind, hrun]
    rw [step_of_error hpump]
    exact htick

theorem Sound.advances (hs : s.Sound) (hopen : s.host.isClosed = false) {call : HostCall α κ}
    (hcall : call.isShutDown = false) :
    Advances (fun j => (call.input?.map j.after).getD j) s (s.step (call.act b budget)) := by
  cases call with
  | apply c =>
    have happly : (s.host.apply c).toOption.getD s.host = (s.host.applyAll [c]).2 := by
      rw [Host.applyAll]
      cases s.host.apply c <;> rfl
    exact hs.quietly hopen (.of_modify (happly ▸ Host.noted_applyAll s.host [c]))
  | applyAll cs => exact hs.quietly hopen (.of_modify (Host.noted_applyAll s.host cs))
  | pointer e => exact hs.quietly hopen (Host.notesAt_handlePointer b budget s.host e)
  | input e =>
    cases e with
    | pointer e =>
      have hpointer := Host.notesAt_handlePointer b budget s.host e
      exact hs.quietly hopen (hpointer.bind fun _ => Host.serves_pure _)
    | key e =>
      exact hs.quietly hopen (.of_serves (Host.lasting.keeps_bind (Host.serves_handleKey b budget e)
        fun _ => Host.serves_pure _))
  | setRoot root at_ => exact hs.quietly hopen (Host.notesAt_setRoot b budget s.host root at_)
  | request r => exact hs.quietly hopen (.of_serves (Host.serves_request b budget r))
  | tick now => exact hs.quietly hopen (.of_serves (Host.serves_tick b budget now))
  | pump now => exact hs.pump b budget hopen now
  | receive => exact (hs.receive b budget).advances
  | drain => exact (hs.drain b budget).advances
  | shutDown => cases hcall

theorem after_of_open (hopen : s.host.isClosed = false) (call : HostCall α κ) :
    s.after b budget call = s.step (call.act b budget) := by
  rw [after, hopen]
  rfl

/-- After the end of the host, nothing new is sent. -/
theorem Sound.after_of_closed (hs : s.Sound) (hclosed : s.host.isClosed = true)
    (call : HostCall α κ) : Stays s (s.after b budget call) := by
  cases hcall : call.outlives with
  | false =>
    rw [after, hclosed, hcall]
    exact .refl hs
  | true =>
    rw [after, hclosed, hcall]
    cases call with
    | receive => exact hs.receive b budget
    | drain => exact hs.drain b budget
    | request r =>
      obtain ⟨htame, hserved⟩ := Host.serves_request b budget r s.host hs.tame
      rw [HostCall.act, step_quietly]
      exact hs.served_of_closed hclosed htame hserved
    | _ => cases hcall

/-- What a call does to the order of things: nothing goes to the queue but at a tick
or at the end, and what goes there together has no two batches that meet. -/
theorem Sound.after (hs : s.Sound) (call : HostCall α κ) :
    let s' := s.after b budget call
    s'.Sound ∧ ∃ pushed, s'.sent = s.sent ++ pushed ∧ pushed.IsChain Outbound.Apart ∧
      (pushed ≠ [] → s.ticks < s'.ticks ∨ call.isShutDown = true) := by
  cases hclosed : s.host.isClosed with
  | true =>
    have h := hs.after_of_closed b budget hclosed call
    exact ⟨h.sound, [], by rw [h.sent, List.append_nil], .nil, fun hne => (hne rfl).elim⟩
  | false =>
    rw [after_of_open b budget hclosed]
    cases hcall : call.isShutDown with
    | false =>
      obtain ⟨hsound, -, -, pushed, hsent, hapart, hticks⟩ :=
        hs.advances b budget hclosed hcall
      exact ⟨hsound, pushed, hsent, hapart, fun hne => .inl (hticks hne)⟩
    | true =>
      cases call with
      | shutDown =>
        obtain ⟨hsound, -, -, hsent⟩ := hs.shutDown b budget hclosed
        exact ⟨hsound, _, hsent, hs.spaced.waiting, fun _ => .inr rfl⟩
      | _ => cases hcall

theorem Sound.run (hs : s.Sound) (calls : List (Nat × HostCall α κ)) : (s.run b calls).Sound := by
  induction calls generalizing s with
  | nil => exact hs
  | cons call calls ih => exact ih (hs.after b call.1 call.2).1

/-- Nothing is sent or written down after the end of the host. -/
theorem Sound.run_of_closed (hs : s.Sound) (hclosed : s.host.isClosed = true)
    (calls : List (Nat × HostCall α κ)) : Stays s (s.run b calls) := by
  induction calls generalizing s with
  | nil => exact .refl hs
  | cons call calls ih =>
    have h := hs.after_of_closed b call.1 hclosed call.2
    exact h.trans (ih h.sound (h.isClosed.trans hclosed))

/-- The journal of a run is that of its input. -/
theorem Sound.journal_run (hs : s.Sound) (hopen : s.host.isClosed = false)
    (calls : List (Nat × HostCall α κ)) :
    (s.run b calls).journal = s.journal.run (HostCall.inputs (calls.map (·.2))) := by
  induction calls generalizing s with
  | nil => rfl
  | cons call calls ih =>
    obtain ⟨budget, call⟩ := call
    change ((s.after b budget call).run b calls).journal = _
    rw [after_of_open b budget hopen, List.map_cons, HostCall.inputs, List.takeWhile_cons]
    cases hcall : call.isShutDown with
    | false =>
      have h := hs.advances b budget hopen hcall
      rw [ih h.sound (h.isClosed.trans hopen), h.journal]
      cases hinput : call.input? <;> simp [HostCall.inputs, hinput, Journal.run]
    | true =>
      cases call with
      | shutDown =>
        obtain ⟨hsound, hjournal, hclosed, -⟩ := hs.shutDown b budget hopen
        exact (hsound.run_of_closed b hclosed calls).journal.trans hjournal
      | _ => cases hcall

theorem sound_start (root : Tag) (config : HostConfig α) (client : ω) :
    (start root config client : HostSession α κ ω).Sound where
  numbered := ⟨rfl, by simp [start, Host.new, Host.shared, Shared.items, DeliveryQueue.new]⟩
  spaced _ := .singleton _
  tame := Host.tame_new root config client
  live _ := ⟨rfl, rfl⟩
  idle h := by cases h

/-- Whatever is called, and whatever the callbacks do: the items taken, those in the
queue and those in the outbox, with batches taken apart, and the updates pending are
together the log of the input, which no frame and no take has a part in. Batches are
numbered from one and are not empty, and after the end all of it has gone to the
queue. Items go there at a tick or at the end, and no two batches that go there
together meet. -/
theorem reports_in_order (root : Tag) (config : HostConfig α) (client : ω)
    (calls : List (Nat × HostCall α κ)) :
    let s := (start root config client : HostSession α κ ω).run b calls
    let items := s.sent ++ s.host.shared.outbox
    let batches := items.filterMap (·.batch?)
    items.flatMap (·.reports) ++ s.host.shared.touches.pending.map .touch =
      ((Journal.start root config).run (HostCall.inputs (calls.map (·.2)))).log ∧
    batches.map (·.sequence) = List.range' 1 batches.length ∧
    (∀ batch ∈ batches, batch.events ≠ []) ∧
    (s.host.isClosed = true → s.host.shared.touches.pending = [] ∧ s.host.shared.outbox = []) ∧
    ∀ (budget : Nat) (call : HostCall α κ), let s' := s.after b budget call
      ∃ pushed, s'.sent = s.sent ++ pushed ∧ pushed.IsChain Outbound.Apart ∧
        (pushed ≠ [] → s.ticks < s'.ticks ∨ call.isShutDown = true) := by
  intro s items batches
  have hs : s.Sound := (sound_start root config client).run b calls
  have hitems : items = s.taken ++ s.host.shared.items := List.append_assoc ..
  have hlog : items.flatMap (·.reports) ++ s.host.shared.touches.pending.map .touch =
      s.journal.log := by
    rw [hitems, List.flatMap_append, List.append_assoc]
    rfl
  have hjournal : s.journal = (Journal.start root config).run (HostCall.inputs (calls.map (·.2))) :=
    (sound_start root config client).journal_run b rfl calls
  have hnumbered : Outbound.Numbered items s.host.shared.touches.batches := hitems ▸ hs.numbered
  have hlength : batches.length = s.host.shared.touches.batches := by
    rw [← List.length_map (·.sequence), hnumbered.sequence, List.length_range']
  refine ⟨hlog.trans (congrArg (·.log) hjournal), ?_, hnumbered.nonempty, hs.idle, ?_⟩
  · rw [hlength]
    exact hnumbered.sequence
  · exact fun budget call => (hs.after b budget call).2

/-- Callbacks that ask for nothing. -/
def idle : Behaviour Empty Unit := ⟨nofun, nofun, nofun, nofun⟩

/-- A click, a hover change and another touch before one frame. -/
def clickThenHover : List (Nat × HostCall Rat Empty) :=
  let event (p : PointerId) (kind : PointerKind) (action : PointerAction) (millis : UInt32) :
      PointerEvent Rat := ⟨p, kind, action, ⟨10, 10⟩, 0, default, .ofMillis millis⟩
  [(1, .applyAll [.create ⟨1⟩ .view, .setFrame ⟨1⟩ ⟨0, 0, 100, 100⟩]),
    (1, .pointer (event ⟨0⟩ .mouse (.down .primary) 1)),
    (1, .pointer (event ⟨0⟩ .mouse (.up .primary) 2)),
    (1, .pointer (event ⟨0⟩ .mouse .move 4)),
    (1, .pointer (event ⟨5⟩ .touch (.down .primary) 6)), (1, .tick (.ofMillis 17))]

/-- The hover change follows the click, and splits the updates in two batches. -/
example : (((start ⟨1⟩ .default ()).run idle clickThenHover).sent.map fun item =>
    item.batch?.map fun batch => (batch.sequence, batch.events.length)) =
      [some (1, 2), none, some (2, 1)] := by cbv

end HostSession

end ViewHost
