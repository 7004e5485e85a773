import ViewHost.Proofs.Host.Apply
import ViewHost.Proofs.Host.Report

/-!
# The journal of a host

A journal keeps the tree, the touches and the path hovered over, and writes down at
once what there is to report of its input. It knows of no frames, no queue and no
callbacks.

Every host has one, if its log is taken to be all that has been or is still to be
heard from the host. What input does to a host before any callback runs, it does to
the journal.
-/

namespace ViewHost

variable {α κ ω : Type}

/-- Input that there may be something to report of. -/
inductive HostInput (α : Type) where
  /-- Commands after one that is refused are not carried out. -/
  | commands (cs : List (Command α))
  | pointer (e : PointerEvent α)
  | setRoot (root : Tag) (at_ : Timestamp)

structure Journal (α : Type) where
  config : HostConfig α
  tree : Tree α
  /-- The touches, with no update pending. -/
  touches : TouchTracker α
  hover : HoverTracker
  /-- The cursor written down last. -/
  cursor : Cursor
  /-- Oldest first. -/
  log : List (Report α)

namespace Journal

variable [Scalar α]

def start (root : Tag) (config : HostConfig α) : Journal α where
  config := config
  tree := .empty
  touches := ((TouchTracker.new root).withEpsilon config.stationaryEpsilon).quiet
  hover := .new
  cursor := .default
  log := []

/-- Takes over the touches, and writes down the updates that are pending. -/
def track (j : Journal α) (touches : TouchTracker α) : Journal α :=
  { j with touches := touches.quiet, log := j.log ++ touches.pending.map .touch }

/-- Follows a change of the hover tracker. It is written down if there is a change
of the path or the cursor. -/
def hoverTo (j : Journal α) (at_ : Timestamp) (result : List HoverChange × HoverTracker) :
    Journal α :=
  let cursor := result.2.cursor j.tree
  if result.1.isEmpty && cursor = j.cursor then { j with hover := result.2 }
  else { j with
    hover := result.2
    cursor := cursor
    log := j.log ++ [.hover at_ result.1 cursor] }

/-- Changes the tree, unless the command is refused. -/
def change? (j : Journal α) (c : Command α) : Option (Journal α) :=
  match j.tree.apply c with
  | .error _ => none
  | .ok tree =>
    match c with
    | .remove _ => some { j with tree := tree, hover := j.hover.retainExisting tree }
    | _ => some { j with tree := tree }

def applyAll (j : Journal α) : List (Command α) → Journal α
  | [] => j
  | c :: rest =>
    match j.change? c with
    | none => j
    | some j => j.applyAll rest

def pointer (j : Journal α) (e : PointerEvent α) : Journal α :=
  match e.action with
  | .down _ => j.track (j.touches.down j.tree e.id e.kind e.position e.timestamp).2.2
  | .move =>
    if (j.touches.touch? e.id).isSome then
      j.track (j.touches.move j.tree e.id e.position e.timestamp).2.2
    else if j.config.hoverTracking && e.kind ≠ .touch then
      j.hoverTo e.timestamp (j.hover.update j.tree j.touches.root e.position)
    else j
  | .up _ => j.track (j.touches.up j.tree e.id e.position e.timestamp).2.2
  | .cancel reason =>
    let j := j.track (j.touches.cancel reason e.timestamp).2
    if reason = .focusLost || reason = .system then j.hoverTo e.timestamp j.hover.clear else j

/-- The journal after some input. -/
def after (j : Journal α) : HostInput α → Journal α
  | .commands cs => j.applyAll cs
  | .pointer e => j.pointer e
  | .setRoot root at_ => (j.track (j.touches.setRoot root)).hoverTo at_ j.hover.clear

def run (j : Journal α) (inputs : List (HostInput α)) : Journal α := inputs.foldl after j

end Journal

namespace Host

/-- The journal of a host some of whose items have been taken. -/
def journal (h : Host α κ ω) (taken : List (Outbound α)) : Journal α where
  config := h.config
  tree := h.tree
  touches := h.shared.touches.quiet
  hover := h.hover
  cursor := h.cursor
  log := taken.flatMap (·.reports) ++ h.shared.reports

/-- `h'` is `h` after it has taken note of something. The journal has moved on, and
what is new in it waits in the tracker or the outbox. -/
structure Noted (next : Journal α → Journal α) (h h' : Host α κ ω) : Prop where
  journal : ∀ taken, h'.journal taken = next (h.journal taken)
  numbered : ∀ taken, Outbound.Numbered (taken ++ h.shared.items) h.shared.touches.batches →
    Outbound.Numbered (taken ++ h'.shared.items) h'.shared.touches.batches
  spaced : h.shared.Spaced → h'.shared.Spaced
  outbound : h'.shared.outbound = h.shared.outbound
  frames : h'.world.frames = h.world.frames
  keys : h'.world.keys = h.world.keys
  isClosed : h'.isClosed = h.isClosed

variable {next next' : Journal α → Journal α} {h h' h'' : Host α κ ω}

theorem journal_congr (hconfig : h'.config = h.config) (htree : h'.tree = h.tree)
    (hhover : h'.hover = h.hover) (hcursor : h'.cursor = h.cursor)
    (hquiet : h'.shared.touches.quiet = h.shared.touches.quiet)
    (hreports : h'.shared.reports = h.shared.reports) (taken : List (Outbound α)) :
    h'.journal taken = h.journal taken := by
  rw [Host.journal, hconfig, htree, hhover, hcursor, hquiet, hreports, Host.journal]

theorem Noted.refl (h : Host α κ ω) : Noted id h h :=
  ⟨fun _ => rfl, fun _ hn => hn, fun hs => hs, rfl, rfl, rfl, rfl⟩

theorem Noted.trans (hn : Noted next h h') (hn' : Noted next' h' h'') :
    Noted (next' ∘ next) h h'' where
  journal taken := by rw [hn'.journal, hn.journal, Function.comp_apply]
  numbered taken hnumbered := hn'.numbered taken (hn.numbered taken hnumbered)
  spaced hspaced := hn'.spaced (hn.spaced hspaced)
  outbound := hn'.outbound.trans hn.outbound
  frames := hn'.frames.trans hn.frames
  keys := hn'.keys.trans hn.keys
  isClosed := hn'.isClosed.trans hn.isClosed

/-- The tracker does not look at what is pending, so its updates are those that
the journal writes down. -/
theorem noted_track {step : TouchTracker α → TouchTracker α} (hstep : TouchTracker.Oblivious step)
    (h : Host α κ ω) {s : Shared α ω} (houtbox : s.outbox = h.shared.outbox)
    (houtbound : s.outbound = h.shared.outbound) (htouches : s.touches = step h.shared.touches) :
    Noted (fun j => j.track (step j.touches)) h (h.setShared s) := by
  have hitems : s.items = h.shared.items := by rw [Shared.items, Shared.items, houtbound, houtbox]
  refine ⟨fun taken => ?_, fun taken hnumbered => ?_, fun hspaced => ?_, houtbound, rfl, rfl, rfl⟩
  · have hlog : s.reports =
        h.shared.reports ++ (step h.shared.touches.quiet).pending.map .touch := by
      rw [Shared.reports, Shared.reports, hitems, htouches, hstep.pending_eq, List.map_append,
        List.append_assoc]
    have hquiet : s.touches.quiet = (step h.shared.touches.quiet).quiet := by
      rw [htouches, hstep.quiet_eq]
    change Journal.mk _ _ s.touches.quiet _ _ (_ ++ s.reports) = _
    rw [hlog, hquiet, ← List.append_assoc]
    rfl
  · change Outbound.Numbered (taken ++ s.items) s.touches.batches
    rwa [hitems, htouches, hstep.batches_eq]
  · change s.Spaced
    rwa [Shared.Spaced, houtbox]

/-- A hover change goes behind all that is pending. -/
theorem noted_hover (h : Host α κ ω) (at_ : Timestamp) {result : List HoverChange × HoverTracker}
    (hnews : ¬(result.1.isEmpty && result.2.cursor h.tree = h.cursor)) :
    let sealed := h.shared.sealPending
    let item := Outbound.hover at_ result.1 (result.2.cursor h.tree)
    Noted (·.hoverTo at_ result) h
      ({ h with hover := result.2, cursor := result.2.cursor h.tree }.setShared
        { sealed with outbox := sealed.outbox ++ [item] }) := by
  intro sealed item
  let s : Shared α ω := { sealed with outbox := sealed.outbox ++ [item] }
  have hitems : s.items = sealed.items ++ [item] := (List.append_assoc ..).symm
  have hpending : s.touches.pending = [] := Shared.pending_sealPending _
  refine ⟨fun taken => ?_, fun taken hnumbered => ?_, fun hspaced => ?_, rfl, rfl, rfl, rfl⟩
  · have hlog : s.reports = h.shared.reports ++ item.reports := by
      rw [← Shared.reports_sealPending h.shared, Shared.reports_of_pending_eq_nil hpending,
        Shared.reports_of_pending_eq_nil (Shared.pending_sealPending _), hitems,
        List.flatMap_append, List.flatMap_singleton]
    have hquiet : s.touches.quiet = h.shared.touches.quiet := TouchTracker.quiet_flush _
    change Journal.mk _ _ s.touches.quiet _ _ (_ ++ s.reports) = _
    rw [hlog, hquiet, ← List.append_assoc, Journal.hoverTo]
    exact (if_neg hnews).symm
  · change Outbound.Numbered (taken ++ s.items) sealed.touches.batches
    rw [hitems, ← List.append_assoc]
    exact (Shared.numbered_sealPending hnumbered).hover ..
  · exact Shared.Spaced.hover hspaced.waiting at_ _ _

/-- No news. -/
theorem noted_hover_of_quiet (h : Host α κ ω) (at_ : Timestamp)
    {result : List HoverChange × HoverTracker}
    (hquiet : result.1.isEmpty && result.2.cursor h.tree = h.cursor) :
    Noted (·.hoverTo at_ result) h { h with hover := result.2 } := by
  refine ⟨fun taken => ?_, fun _ hn => hn, fun hs => hs, rfl, rfl, rfl, rfl⟩
  rw [Journal.hoverTo]
  exact (if_pos hquiet).symm

variable [Scalar α]

theorem journal_apply (h : Host α κ ω) (c : Command α) (taken : List (Outbound α)) :
    (h.journal taken).change? c = (h.apply c).toOption.map (·.journal taken) := by
  rw [Host.apply, Journal.change?, show (h.journal taken).tree = h.tree from rfl]
  cases h.tree.apply c with
  | error e => rfl
  | ok tree => cases c <;> rfl

theorem noted_applyAll (h : Host α κ ω) (cs : List (Command α)) :
    Noted (·.applyAll cs) h (h.applyAll cs).2 := by
  have hjournal : ∀ taken, (h.applyAll cs).2.journal taken = (h.journal taken).applyAll cs := by
    intro taken
    induction cs generalizing h with
    | nil => rfl
    | cons c cs ih =>
      rw [Host.applyAll, Journal.applyAll, journal_apply]
      cases h.apply c with
      | error e => rfl
      | ok h' => exact ih h'
  obtain ⟨_, _, heq⟩ : ∃ tree hover, (h.applyAll cs).2 = { h with tree := tree, hover := hover } :=
    ⟨_, _, (ViewsOnly.applyAll h cs).rest⟩
  refine ⟨hjournal, ?_, ?_, ?_, ?_, ?_, ?_⟩ <;> rw [heq]
  · exact fun _ hn => hn
  · exact fun hs => hs
  all_goals rfl

end Host

end ViewHost
