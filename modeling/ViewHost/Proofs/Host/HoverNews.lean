import ViewHost.Proofs.Host.Hovering
import ViewHost.Proofs.Tree.Walks

/-!
# What a hover item tells

A hover item is queued only if it has something to tell: a view that is entered or left, or
a cursor that is not the one told of last. For this the host remembers a cursor, and what it
remembers is what it has told, since the two change together. Meanwhile commands may take
views off the path and give others another cursor, but nothing is told of that before the
pointer moves, is cancelled, or finds another root.

The path only ever names views that are in the tree, so that all of them can be asked for
a cursor. While hover tracking is off it stays empty, and with it all that could be told.
-/

namespace ViewHost

variable {α κ ω : Type}

/-- The cursor along a path is the one that the deepest view on it asks for, of those that
do not leave it to the view above. -/
inductive Tree.CursorAlong (t : Tree α) : List Tag → Cursor → Prop where
  | none : CursorAlong t [] .default
  | asked {above : List Tag} {tag : Tag} {v : View α} (hv : t.view? tag = some v)
      (hasks : v.cursor ≠ .inherit) : CursorAlong t (above ++ [tag]) v.cursor
  | inherited {above : List Tag} {tag : Tag} {v : View α} {c : Cursor}
      (hv : t.view? tag = some v) (hinherits : v.cursor = .inherit)
      (habove : CursorAlong t above c) : CursorAlong t (above ++ [tag]) c

namespace HoverTracker

variable {tree : Tree α}

theorem cursor_concat {above : List Tag} {tag : Tag} {v : View α} (hv : tree.view? tag = some v) :
    (⟨above ++ [tag]⟩ : HoverTracker).cursor tree =
      if v.cursor = .inherit then (⟨above⟩ : HoverTracker).cursor tree else v.cursor := by
  rw [cursor, List.reverse_concat, List.findSome?_cons, hv]
  by_cases hinherits : v.cursor = .inherit
  · simp only [hinherits, if_true]
    rfl
  · simp only [if_neg hinherits, Option.getD_some]

theorem cursorAlong (path : List Tag) (hknown : ∀ x ∈ path, ∃ v, tree.view? x = some v) :
    tree.CursorAlong path ((⟨path⟩ : HoverTracker).cursor tree) := by
  induction path using List.reverseRecOn with
  | nil => exact .none
  | append_singleton above tag ih =>
    obtain ⟨v, hv⟩ := hknown tag (by simp)
    rw [cursor_concat hv]
    by_cases hinherits : v.cursor = .inherit
    · rw [if_pos hinherits]
      exact .inherited hv hinherits (ih fun x hx => hknown x (by simp [hx]))
    · rw [if_neg hinherits]
      exact .asked hv hinherits

/-- Nothing changes where nothing is hovered over. -/
theorem clear_new : new.clear = ([], new) := rfl

end HoverTracker

/-! ## Telling -/

/-- What a hover item tells. -/
structure HoverNews where
  at_ : Timestamp
  changes : List HoverChange
  cursor : Cursor

namespace HoverNews

/-- The cursor told of last. -/
def lastCursor (told : List HoverNews) : Cursor := (told.getLast?.map (·.cursor)).getD .default

/-- There is a change in it, or another cursor than the one told of last. -/
def Fresh (told : List HoverNews) (n : HoverNews) : Prop :=
  n.changes ≠ [] ∨ n.cursor ≠ lastCursor told

/-- Each of some news was fresh when it was told. -/
def AllFresh (told : List HoverNews) : Prop :=
  ∀ before n after, told = before ++ n :: after → Fresh before n

/-- What is told after a cursor: nothing, if there is no change and the cursor is the same. -/
def toldAfter (c : Cursor) (n : HoverNews) : List HoverNews :=
  if n.changes = [] ∧ n.cursor = c then [] else [n]

variable {told : List HoverNews} {n : HoverNews}

theorem lastCursor_concat (told : List HoverNews) (n : HoverNews) :
    lastCursor (told ++ [n]) = n.cursor := by
  rw [lastCursor, List.getLast?_concat]
  rfl

theorem AllFresh.concat (h : AllFresh told) (hn : Fresh told n) : AllFresh (told ++ [n]) := by
  intro before m after hsplit
  -- either it is the new one, or it was there before
  rcases List.eq_nil_or_concat after with rfl | ⟨more, last, rfl⟩
  · obtain ⟨rfl, hm⟩ := List.append_inj' hsplit rfl
    obtain rfl : n = m := (List.cons.inj hm).1
    exact hn
  · rw [List.concat_eq_append, ← List.cons_append, ← List.append_assoc] at hsplit
    exact h before m more (List.append_inj' hsplit rfl).1

/-- Either way, the cursor told of last is the one there is now. -/
theorem lastCursor_append_toldAfter (told : List HoverNews) (n : HoverNews) :
    lastCursor (told ++ n.toldAfter (lastCursor told)) = n.cursor := by
  rw [toldAfter]
  split
  · next hstale => rw [List.append_nil, hstale.2]
  · exact lastCursor_concat told n

theorem AllFresh.append_toldAfter (h : AllFresh told) (n : HoverNews) :
    AllFresh (told ++ n.toldAfter (lastCursor told)) := by
  rw [toldAfter]
  split
  · rwa [List.append_nil]
  · next hfresh => exact h.concat (not_and_or.1 hfresh)

end HoverNews

def Report.news? : Report α → Option HoverNews
  | .touch _ => none
  | .hover at_ changes cursor => some ⟨at_, changes, cursor⟩

theorem Report.filterMap_news?_touches (updates : List (TouchEvent α)) :
    (updates.map Report.touch).filterMap news? = [] := by
  rw [List.filterMap_eq_nil_iff]
  intro report hreport
  obtain ⟨e, -, rfl⟩ := List.mem_map.1 hreport
  rfl

namespace Outbound

def news? : Outbound α → Option HoverNews
  | .touches _ => none
  | .hover at_ changes cursor => some ⟨at_, changes, cursor⟩

theorem exists_batch_of_news? {item : Outbound α} (h : item.news? = none) :
    ∃ batch, item = .touches batch := by
  cases item with
  | touches batch => exact ⟨batch, rfl⟩
  | hover => cases h

/-- Items tell what the reports in them do. -/
theorem filterMap_news?_reports (items : List (Outbound α)) :
    (items.flatMap (·.reports)).filterMap Report.news? = items.filterMap news? := by
  induction items with
  | nil => rfl
  | cons item items ih =>
    rw [List.flatMap_cons, List.filterMap_append, ih, List.filterMap_cons]
    cases item with
    | touches batch =>
      rw [reports, Report.filterMap_news?_touches]
      rfl
    | hover => rfl

end Outbound

/-- The input that has the pointer hover over other views, when it does so, and the views:
none for another root and a pointer that is lost, and those found for one that moves without
being in contact while hover tracking is on, if it is not a finger. -/
inductive HoverSource (config : HostConfig α) (touches : TouchTracker α) (tree : Tree α)
    [Scalar α] : HostInput α → Timestamp → List Tag → Prop where
  | setRoot (root : Tag) (at_ : Timestamp) :
      HoverSource config touches tree (.setRoot root at_) at_ []
  | cancel {e : PointerEvent α} {reason : CancelReason} (haction : e.action = .cancel reason)
      (hreason : reason = .focusLost ∨ reason = .system) :
      HoverSource config touches tree (.pointer e) e.timestamp []
  | move {e : PointerEvent α} (haction : e.action = .move) (hkind : e.kind ≠ .touch)
      (hfree : touches.touch? e.id = none) (htracking : config.hoverTracking = true) :
      HoverSource config touches tree (.pointer e) e.timestamp
        (((tree.hitTest e.position touches.root).bind (tree.path? touches.root)).getD [])

namespace HoverSource

variable [Scalar α] {config : HostConfig α} {touches : TouchTracker α} {tree : Tree α}
variable {input : HostInput α} {at_ : Timestamp} {next : List Tag}

/-- The updates that are pending do not matter for it. -/
theorem quiet_iff : HoverSource config touches.quiet tree input at_ next ↔
    HoverSource config touches tree input at_ next := by
  constructor <;> intro h
  all_goals cases h with
  | setRoot root at_ => exact .setRoot root at_
  | cancel haction hreason => exact .cancel haction hreason
  | move haction hkind hfree htracking => exact .move haction hkind hfree htracking

theorem eq_nil (h : HoverSource config touches tree input at_ next)
    (htracking : config.hoverTracking = false) : next = [] := by
  cases h with
  | setRoot => rfl
  | cancel => rfl
  | move _ _ _ hon => cases htracking.symm.trans hon

end HoverSource

namespace Journal

/-- What has been told of hovering. -/
def news (j : Journal α) : List HoverNews := j.log.filterMap (·.news?)

/-- From `j` to `j'`, nothing is told of hovering and nothing comes to be hovered over. -/
structure Silent (j j' : Journal α) : Prop where
  news : j'.news = j.news
  cursor : j'.cursor = j.cursor
  config : j'.config = j.config
  still : j.hover = .new → j'.hover = .new

/-- From `j` to `j'`, the views hovered over become those on the path `next`, and this is told
if it is worth it. -/
structure Hovered (j j' : Journal α) (at_ : Timestamp) (next : List Tag) : Prop where
  path : j'.hover.path = next
  cursor : j'.cursor = j'.hover.cursor j'.tree
  config : j'.config = j.config
  news : j'.news = j.news ++
    (HoverNews.mk at_ (j.hover.updatePath next).1 j'.cursor).toldAfter j.cursor

/-- The cursor that is remembered is the one told of last, all that was told was fresh, and
with hover tracking off there was nothing to tell. -/
structure Told (j : Journal α) : Prop where
  cursor : j.cursor = HoverNews.lastCursor j.news
  fresh : HoverNews.AllFresh j.news
  still : j.config.hoverTracking = false → j.hover = .new ∧ j.news = []

variable {j j' j'' : Journal α} {at_ : Timestamp} {next : List Tag}

theorem Silent.refl (j : Journal α) : Silent j j := ⟨rfl, rfl, rfl, id⟩

theorem Silent.trans (h : Silent j j') (h' : Silent j' j'') : Silent j j'' where
  news := h'.news.trans h.news
  cursor := h'.cursor.trans h.cursor
  config := h'.config.trans h.config
  still := h'.still ∘ h.still

theorem silent_track (j : Journal α) (touches : TouchTracker α) : Silent j (j.track touches) := by
  refine ⟨?_, rfl, rfl, id⟩
  rw [news, track, List.filterMap_append, Report.filterMap_news?_touches, List.append_nil]
  rfl

theorem Hovers.cursorAlong (hj : j.Hovers) :
    j.tree.CursorAlong j.hover.path (j.hover.cursor j.tree) := by
  refine HoverTracker.cursorAlong _ fun x hx => ?_
  obtain ⟨h, hh⟩ := Tree.exists_handle_iff.1 (hj.known x hx)
  obtain ⟨m, hm⟩ := Tree.mem_nodes_iff.1 (hj.wellFormed.mem_nodes_of_handle? hh)
  exact ⟨m.view, Tree.view?_eq hh hm⟩

/-- Every change of the path that is followed is worth the same to the log. -/
theorem hovered_hoverTo (j : Journal α) (at_ : Timestamp) (next : List Tag) :
    Hovered j (j.hoverTo at_ (j.hover.updatePath next)) at_ next := by
  rw [hoverTo]
  split
  · next hquiet =>
    rw [Bool.and_eq_true, List.isEmpty_iff, decide_eq_true_iff] at hquiet
    refine ⟨rfl, hquiet.2.symm, rfl, ?_⟩
    rw [HoverNews.toldAfter, if_pos ⟨hquiet.1, rfl⟩, List.append_nil]
    rfl
  · next hnews =>
    rw [Bool.and_eq_true, List.isEmpty_iff, decide_eq_true_iff] at hnews
    refine ⟨rfl, rfl, rfl, ?_⟩
    rw [HoverNews.toldAfter, if_neg hnews, news, List.filterMap_append]
    rfl

/-- What touches have done before is told apart. -/
theorem hovered_track (j : Journal α) (touches : TouchTracker α) (at_ : Timestamp)
    (next : List Tag) :
    Hovered j ((j.track touches).hoverTo at_ (j.hover.updatePath next)) at_ next := by
  have h := hovered_hoverTo (j.track touches) at_ next
  have hsilent := silent_track j touches
  exact ⟨h.path, h.cursor, h.config, hsilent.news ▸ h.news⟩

/-- With hover tracking off, to hover over nothing is no news. -/
theorem Told.still_of_hovered (hj : j.Told) (h : Hovered j j' at_ [])
    (htracking : j.config.hoverTracking = false) : j'.hover = .new ∧ j'.news = [] := by
  obtain ⟨hhover, hnews⟩ := hj.still htracking
  have hhover' : j'.hover = .new := congrArg HoverTracker.mk h.path
  have hcursor : j.cursor = .default := by
    rw [hj.cursor, hnews]
    rfl
  have hcursor' : j'.cursor = .default := by
    rw [h.cursor, hhover']
    rfl
  refine ⟨hhover', ?_⟩
  rw [h.news, hnews, hhover, hcursor, hcursor']
  rfl

section

variable [Scalar α] {input : HostInput α}

theorem Told.start (root : Tag) (config : HostConfig α) : (Journal.start root config).Told where
  cursor := rfl
  fresh := by
    intro before n after hsplit
    simp [news, Journal.start] at hsplit
  still _ := ⟨rfl, rfl⟩

/-- A command that destroys views takes them off the path, but tells nothing. -/
theorem silent_change {c : Command α} (hc : j.change? c = some j') : Silent j j' := by
  rw [change?] at hc
  cases htree : j.tree.apply c with
  | error e => simp [htree] at hc
  | ok tree =>
    rw [htree] at hc
    cases c with
    | remove tag =>
      cases hc
      refine ⟨rfl, rfl, rfl, fun hhover => ?_⟩
      rw [hhover]
      rfl
    | _ =>
      cases hc
      exact ⟨rfl, rfl, rfl, id⟩

theorem silent_applyAll (j : Journal α) (cs : List (Command α)) : Silent j (j.applyAll cs) := by
  induction cs generalizing j with
  | nil => exact .refl j
  | cons c cs ih =>
    rw [applyAll]
    cases hc : j.change? c with
    | none => exact .refl j
    | some j' => exact (silent_change hc).trans (ih j')

theorem hovered_after (h : HoverSource j.config j.touches j.tree input at_ next) :
    Hovered j (j.after input) at_ next := by
  cases h with
  | setRoot root => exact hovered_track j _ at_ []
  | @cancel e reason haction hreason =>
    have hafter : j.after (.pointer e) =
        (j.track (j.touches.cancel reason e.timestamp).2).hoverTo e.timestamp j.hover.clear := by
      simp only [after, Journal.pointer, haction, Bool.or_eq_true, decide_eq_true_eq,
        if_pos hreason]
      rfl
    rw [hafter]
    exact hovered_track j _ _ []
  | @move e haction hkind hfree htracking =>
    have hafter : j.after (.pointer e) =
        j.hoverTo e.timestamp (j.hover.update j.tree j.touches.root e.position) := by
      simp [after, Journal.pointer, haction, hfree, htracking, hkind]
    rw [hafter]
    exact hovered_hoverTo j _ _

theorem silent_after (hnone : ∀ at_ next, ¬ HoverSource j.config j.touches j.tree input at_ next) :
    Silent j (j.after input) := by
  cases input with
  | commands cs => exact silent_applyAll j cs
  | setRoot root at_ => exact (hnone _ _ (.setRoot root at_)).elim
  | pointer e =>
    rw [after, Journal.pointer]
    cases haction : e.action with
    | down button => exact silent_track j _
    | up button => exact silent_track j _
    | move =>
      simp only
      split
      · exact silent_track j _
      next hfree =>
      split
      · next hhovers =>
        rw [Bool.and_eq_true, decide_eq_true_iff] at hhovers
        exact (hnone _ _ (.move haction hhovers.2 (by simpa using hfree) hhovers.1)).elim
      · exact .refl j
    | cancel reason =>
      simp only
      split
      · next hreason => exact (hnone _ _ (.cancel haction (by simpa using hreason))).elim
      · exact silent_track j _

theorem config_after (j : Journal α) (input : HostInput α) :
    (j.after input).config = j.config := by
  by_cases hsource : ∃ at_ next, HoverSource j.config j.touches j.tree input at_ next
  · obtain ⟨at_, next, hsource⟩ := hsource
    exact (hovered_after hsource).config
  · simp only [not_exists] at hsource
    exact (silent_after hsource).config

theorem Told.after (hj : j.Told) (input : HostInput α) : (j.after input).Told := by
  by_cases hsource : ∃ at_ next, HoverSource j.config j.touches j.tree input at_ next
  · obtain ⟨at_, next, hsource⟩ := hsource
    have h := hovered_after hsource
    have hnews := h.news
    rw [hj.cursor] at hnews
    refine ⟨?_, ?_, fun htracking => ?_⟩
    · rw [hnews, HoverNews.lastCursor_append_toldAfter]
    · rw [hnews]
      exact hj.fresh.append_toldAfter _
    · rw [h.config] at htracking
      obtain rfl := hsource.eq_nil htracking
      exact hj.still_of_hovered h htracking
  · simp only [not_exists] at hsource
    have h := silent_after hsource
    refine ⟨?_, ?_, fun htracking => ?_⟩
    · rw [h.cursor, h.news, hj.cursor]
    · rw [h.news]
      exact hj.fresh
    · rw [h.config] at htracking
      obtain ⟨hhover, hnews⟩ := hj.still htracking
      exact ⟨h.still hhover, h.news.trans hnews⟩

theorem Told.run (hj : j.Told) (inputs : List (HostInput α)) : (j.run inputs).Told := by
  induction inputs generalizing j with
  | nil => exact hj
  | cons input inputs ih => exact ih (hj.after input)

theorem config_run (j : Journal α) (inputs : List (HostInput α)) :
    (j.run inputs).config = j.config := by
  induction inputs generalizing j with
  | nil => rfl
  | cons input inputs ih => exact (ih _).trans (config_after j input)

theorem Hovers.run (hj : j.Hovers) (inputs : List (HostInput α)) : (j.run inputs).Hovers := by
  induction inputs generalizing j with
  | nil => exact hj
  | cons input inputs ih => exact ih (hj.hears input).hovers

end

end Journal

/-! ## Sessions -/

namespace HostSession

/-- What the hover items that have been queued tell, oldest first. -/
def news (s : HostSession α κ ω) : List HoverNews :=
  (s.sent ++ s.host.shared.outbox).filterMap (·.news?)

theorem news_eq (s : HostSession α κ ω) : s.news = s.journal.news := by
  rw [Journal.news, s.log_journal, List.filterMap_append, Report.filterMap_news?_touches,
    List.append_nil, Outbound.filterMap_news?_reports, news]

variable [Scalar α] {s : HostSession α κ ω} (b : Behaviour κ ω) (budget : Nat)

/-- The journal moves on with the input of a call, until the end of the host. -/
theorem Sound.journal_after (hs : s.Sound) (hopen : s.host.isClosed = false)
    (call : HostCall α κ) :
    (s.after b budget call).journal = (call.input?.map s.journal.after).getD s.journal := by
  rw [after_of_open b budget hopen]
  cases hcall : call.isShutDown with
  | true =>
    cases call with
    | shutDown => exact (hs.shutDown b budget hopen).2.1
    | _ => cases hcall
  | false => exact (hs.advances b budget hopen hcall).journal

/-- Nothing is told of hovering but after input that has the pointer hover. -/
theorem Sound.exists_source (hs : s.Sound) {call : HostCall α κ}
    (hnews : (s.after b budget call).news ≠ s.news) : s.host.isClosed = false ∧
      ∃ input at_ next, call.input? = some input ∧
        HoverSource s.host.config s.host.shared.touches s.host.tree input at_ next := by
  rw [news_eq, news_eq] at hnews
  cases hclosed : s.host.isClosed with
  | true => exact (hnews (congrArg _ (hs.after_of_closed b budget hclosed call).journal)).elim
  | false =>
    have hafter := hs.journal_after b budget hclosed call
    refine ⟨rfl, ?_⟩
    cases hinput : call.input? with
    | none =>
      rw [hinput] at hafter
      exact (hnews (congrArg _ hafter)).elim
    | some input =>
      rw [hinput] at hafter
      by_contra hnone
      refine hnews ((congrArg _ hafter).trans (Journal.silent_after ?_).news)
      intro at_ next hsource
      exact hnone ⟨input, at_, next, rfl, HoverSource.quiet_iff.1 hsource⟩

/-- After such input, what there is to tell of it is told. -/
theorem Sound.hovered_after (hs : s.Sound) (hovers : s.journal.Hovers) (htold : s.journal.Told)
    (hopen : s.host.isClosed = false) {call : HostCall α κ} {input : HostInput α}
    {at_ : Timestamp} {next : List Tag} (hinput : call.input? = some input)
    (hsource : HoverSource s.host.config s.host.shared.touches s.host.tree input at_ next) :
    let s' := s.after b budget call
    s'.host.hover.path = next ∧ ∃ c, s'.host.tree.CursorAlong next c ∧ s'.news = s.news ++
      (HoverNews.mk at_ (s.host.hover.updatePath next).1 c).toldAfter
        (HoverNews.lastCursor s.news) := by
  intro s'
  have hafter : s'.journal = s.journal.after input := by
    rw [hs.journal_after b budget hopen call, hinput]
    rfl
  have h : Journal.Hovered s.journal s'.journal at_ next := by
    rw [hafter]
    exact Journal.hovered_after (HoverSource.quiet_iff.2 hsource)
  have halong : s'.journal.tree.CursorAlong next s'.journal.cursor := by
    rw [h.cursor, ← h.path, hafter]
    exact (hovers.hears input).hovers.cursorAlong
  refine ⟨h.path, _, halong, ?_⟩
  rw [news_eq, news_eq, ← htold.cursor]
  exact h.news

/-- Whatever is called, and whatever the callbacks do: the path names views of the tree, and
so does the view hovered over. Each hover item has changes in it, or a cursor other than the
one before it, which is the default cursor before the first. With hover tracking off there
are only batches.

The hover items are the same after a call, unless it is of another root, of a lost pointer or
of one that hovers. By such a call the path becomes the one that the pointer is found on, or
empty. Then an item is queued with the changes of the path and the cursor along the new one,
unless there are no changes and the cursor is that of the last item. -/
theorem hover_items_tell_news (root : Tag) (config : HostConfig α) (client : ω)
    (calls : List (Nat × HostCall α κ)) :
    let s := (start root config client : HostSession α κ ω).run b calls
    let source := HoverSource config s.host.shared.touches s.host.tree
    (∀ tag ∈ s.host.hover.path, s.host.tree.contains tag = true) ∧
    (∀ tag, s.host.hovered? = some tag → s.host.tree.contains tag = true) ∧
    HoverNews.AllFresh s.news ∧
    (config.hoverTracking = false →
      ∀ item ∈ s.sent ++ s.host.shared.outbox, ∃ batch, item = .touches batch) ∧
    ∀ (budget : Nat) (call : HostCall α κ), let s' := s.after b budget call
      (s'.news ≠ s.news → s.host.isClosed = false ∧
        ∃ input at_ next, call.input? = some input ∧ source input at_ next) ∧
      (s.host.isClosed = false → ∀ input at_ next, call.input? = some input →
        source input at_ next → s'.host.hover.path = next ∧
          ∃ c, s'.host.tree.CursorAlong next c ∧ s'.news = s.news ++
            (HoverNews.mk at_ (s.host.hover.updatePath next).1 c).toldAfter
              (HoverNews.lastCursor s.news)) := by
  intro s source
  have hs : s.Sound := (sound_start root config client).run b calls
  have hjournal : s.journal = (Journal.start root config).run (HostCall.inputs (calls.map (·.2))) :=
    (sound_start root config client).journal_run b rfl calls
  have htold : s.journal.Told := hjournal ▸ .run (.start root config) _
  have hovers : s.journal.Hovers := hjournal ▸ .run (.start root config) _
  have hconfig : s.host.config = config :=
    (congrArg (·.config) hjournal).trans (Journal.config_run _ _)
  have hsource : source = HoverSource s.host.config s.host.shared.touches s.host.tree := by
    rw [hconfig]
  refine ⟨hovers.known, fun tag htag => ?_, ?_, fun htracking item hitem => ?_,
    fun budget call => ?_⟩
  · exact hovers.known tag (List.mem_of_getLast? htag)
  · rw [news_eq]
    exact htold.fresh
  · have hoff : s.host.config.hoverTracking = false := by rwa [hconfig]
    have hnews : s.news = [] := by
      rw [news_eq]
      exact (htold.still hoff).2
    exact Outbound.exists_batch_of_news? (List.filterMap_eq_nil_iff.1 hnews item hitem)
  · rw [hsource]
    exact ⟨hs.exists_source b budget, fun hopen input at_ next hinput hhovers =>
      hs.hovered_after b budget hovers htold hopen hinput hhovers⟩

end HostSession

end ViewHost
