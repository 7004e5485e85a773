import Mathlib
import ViewHost.Proofs.Host.Session
import ViewHost.Proofs.Hover.Crossings
import ViewHost.Proofs.Tree.Path

/-!
# Hovering in a session

Whatever is done to a host, the hover changes it queues are in turn for every view,
and the views that were entered last are those on the path: pointer events and new
roots replace a path by another that names views of the tree, none twice.

Only commands that destroy views have to be reckoned with apart. Of the path they
leave what is in front of the first view that is gone. Views behind it are lost to
hovering although they may be there still, since a view can be taken out of the one
it was hovered over in without any hover change. When the pointer finds such a view
again, it is entered a second time without having been left or destroyed.
-/

namespace ViewHost

variable {α κ ω : Type}

namespace Report

def changes : Report α → List HoverChange
  | .touch _ => []
  | .hover _ changes _ => changes

/-- What some reports mean to the view with a tag. -/
def crossings (tag : Tag) (reports : List (Report α)) : List Crossing :=
  (reports.flatMap changes).filterMap (·.crossing? tag)

variable {tag : Tag}

theorem crossings_append (reports more : List (Report α)) :
    crossings tag (reports ++ more) = crossings tag reports ++ crossings tag more := by
  rw [crossings, List.flatMap_append, List.filterMap_append]
  rfl

theorem crossings_touches (updates : List (TouchEvent α)) :
    crossings tag (updates.map Report.touch) = [] := by
  have hchanges : (updates.map Report.touch).flatMap changes = [] := by
    rw [List.flatMap_eq_nil_iff]
    intro report hreport
    obtain ⟨e, -, rfl⟩ := List.mem_map.1 hreport
    rfl
  rw [crossings, hchanges, List.filterMap_nil]

/-- Nothing is lost by a report. -/
theorem filter_crossings (reports : List (Report α)) :
    (crossings tag reports).filter (· ≠ .lost) = crossings tag reports := by
  rw [List.filter_eq_self]
  intro crossing hcrossing
  obtain ⟨change, -, hchange⟩ := List.mem_filterMap.1 hcrossing
  cases change <;>
    · rw [HoverChange.crossing?, Option.ite_none_right_eq_some] at hchange
      cases hchange.2
      rfl

end Report

namespace Journal

/-- The view with a tag is no longer in the tree. -/
def destroyed (tag : Tag) (j j' : Journal α) : Bool :=
  j.tree.contains tag && !j'.tree.contains tag

/-- The view with a tag is no longer in the tree, or it was hovered over in one that is
not. -/
def cutOff (tag : Tag) (j j' : Journal α) : Bool :=
  j.destroyed tag j' ||
    tag ∈ j.hover.path && (j.hover.path.takeWhile (· ≠ tag)).any fun above => j.destroyed above j'

section History

variable [Scalar α] (lost : Journal α → Journal α → Bool)

/-- The losses that commands bring, of those that `lost` tells. -/
def losses (j : Journal α) : List (Command α) → List Crossing
  | [] => []
  | c :: cs =>
    match j.change? c with
    | none => []
    | some j' => (if lost j j' then [.lost] else []) ++ j'.losses cs

/-- The losses that input brings. -/
def lossesIn (j : Journal α) : HostInput α → List Crossing
  | .commands cs => j.losses lost cs
  | _ => []

/-- What input means to the view with a tag: the losses in it, and what is written
down. -/
def crossings (tag : Tag) (j : Journal α) (input : HostInput α) : List Crossing :=
  j.lossesIn lost input ++ Report.crossings tag ((j.after input).log.drop j.log.length)

theorem filter_losses (j : Journal α) (cs : List (Command α)) :
    (j.losses lost cs).filter (· ≠ .lost) = [] := by
  induction cs generalizing j with
  | nil => rfl
  | cons c cs ih =>
    rw [losses]
    cases j.change? c with
    | none => rfl
    | some j' =>
      rw [List.filter_append, ih]
      cases lost j j' <;> rfl

theorem filter_lossesIn (j : Journal α) (input : HostInput α) :
    (j.lossesIn lost input).filter (· ≠ .lost) = [] := by
  cases input with
  | commands cs => exact filter_losses lost j cs
  | _ => rfl

/-- What a run means to the view with a tag. -/
def history (tag : Tag) (j : Journal α) : List (HostInput α) → List Crossing
  | [] => []
  | input :: inputs => j.crossings lost tag input ++ (j.after input).history tag inputs

end History

/-- The path names views of the tree, none of them twice. -/
structure Hovers (j : Journal α) : Prop where
  wellFormed : j.tree.WellFormed
  nodup : j.hover.path.Nodup
  known : ∀ x ∈ j.hover.path, j.tree.contains x = true

/-- More is written down in `j'`, and it is in turn for every view. -/
structure Turns (j j' : Journal α) : Prop where
  hovers : j'.Hovers
  news : ∃ reports, j'.log = j.log ++ reports ∧
    ∀ tag, Crossing.scan (tag ∈ j.hover.path) (Report.crossings tag reports) =
      some (decide (tag ∈ j'.hover.path))

variable {j j' j'' : Journal α}

theorem Turns.trans (h : Turns j j') (h' : Turns j' j'') : Turns j j'' := by
  obtain ⟨-, reports, hlog, hscan⟩ := h
  obtain ⟨hovers, more, hlog', hscan'⟩ := h'
  refine ⟨hovers, reports ++ more, by rw [hlog', hlog, List.append_assoc], ?_⟩
  intro tag
  rw [Report.crossings_append, Crossing.scan_append, hscan, Option.bind_some, hscan']

namespace Hovers

theorem start [Scalar α] (root : Tag) (config : HostConfig α) :
    (Journal.start root config).Hovers where
  wellFormed := .empty
  nodup := .nil
  known := nofun

theorem refl (hj : j.Hovers) : Turns j j :=
  ⟨hj, [], (List.append_nil _).symm, fun _ => rfl⟩

theorem track (hj : j.Hovers) (touches : TouchTracker α) : Turns j (j.track touches) := by
  refine ⟨⟨hj.wellFormed, hj.nodup, hj.known⟩, _, rfl, ?_⟩
  intro tag
  rw [Report.crossings_touches]
  rfl

theorem hoverTo (hj : j.Hovers) (at_ : Timestamp) {next : List Tag} (hnodup : next.Nodup)
    (hknown : ∀ x ∈ next, j.tree.contains x = true) :
    Turns j (j.hoverTo at_ (j.hover.updatePath next)) := by
  have hscan := fun tag => j.hover.scan_updatePath hj.nodup hnodup tag
  rw [Journal.hoverTo]
  split
  · next hquiet =>
    have hempty : (j.hover.updatePath next).1 = [] := by
      rw [Bool.and_eq_true, List.isEmpty_iff] at hquiet
      exact hquiet.1
    rw [hempty] at hscan
    exact ⟨⟨hj.wellFormed, hnodup, hknown⟩, [], (List.append_nil _).symm, hscan⟩
  · refine ⟨⟨hj.wellFormed, hnodup, hknown⟩, _, rfl, ?_⟩
    intro tag
    rw [Report.crossings, List.flatMap_singleton]
    exact hscan tag

theorem clear (hj : j.Hovers) (at_ : Timestamp) : Turns j (j.hoverTo at_ j.hover.clear) :=
  hj.hoverTo at_ .nil nofun

section

variable [Scalar α]

theorem update (hj : j.Hovers) (at_ : Timestamp) (root : Tag) (p : Vec2 α) :
    Turns j (j.hoverTo at_ (j.hover.update j.tree root p)) := by
  rw [HoverTracker.update]
  cases hpath : (j.tree.hitTest p root).bind (j.tree.path? root) with
  | none => exact hj.clear at_
  | some path =>
    obtain ⟨hit, -, hpath⟩ := Option.bind_eq_some_iff.1 hpath
    obtain ⟨hnodup, hknown⟩ := hj.wellFormed.path?_distinct hpath
    exact hj.hoverTo at_ hnodup hknown

theorem pointer (hj : j.Hovers) (e : PointerEvent α) : Turns j (j.pointer e) := by
  rw [Journal.pointer]
  cases e.action with
  | down button => exact hj.track _
  | up button => exact hj.track _
  | move =>
    simp only
    split
    · exact hj.track _
    split
    · exact hj.update _ _ _
    · exact hj.refl
  | cancel reason =>
    simp only
    have htrack := hj.track (j.touches.cancel reason e.timestamp).2
    split
    · exact htrack.trans (htrack.hovers.clear _)
    · exact htrack

theorem setRoot (hj : j.Hovers) (root : Tag) (at_ : Timestamp) :
    Turns j (j.after (.setRoot root at_)) := by
  have htrack := hj.track (j.touches.setRoot root)
  exact htrack.trans (htrack.hovers.clear at_)

end

/-! ## Commands -/

/-- A view on the path is not cut off if it and those above it are there still. -/
theorem cutOff_eq_false_iff (hj : j.Hovers) {tag : Tag} (htag : tag ∈ j.hover.path) :
    j.cutOff tag j' = false ↔ j'.tree.contains tag = true ∧
      ∀ x ∈ j.hover.path.takeWhile (· ≠ tag), j'.tree.contains x = true := by
  have hgone : ∀ x ∈ j.hover.path, j.destroyed x j' = false ↔ j'.tree.contains x = true := by
    intro x hx
    simp [destroyed, hj.known x hx]
  rw [cutOff, Bool.or_eq_false_iff, hgone tag htag, decide_eq_true htag, Bool.true_and,
    List.any_eq_false]
  refine and_congr_right fun _ => forall₂_congr fun x hx => ?_
  rw [Bool.not_eq_true, hgone x (List.takeWhile_subset _ hx)]

variable [Scalar α]

/-- Nothing is written down of a command. The views that are no longer hovered over
after it are those that were cut off. -/
theorem change (hj : j.Hovers) {c : Command α} (hc : j.change? c = some j') :
    j'.Hovers ∧ j'.log = j.log ∧
      ∀ tag, tag ∈ j'.hover.path ↔ tag ∈ j.hover.path ∧ j.cutOff tag j' = false := by
  rw [change?] at hc
  cases htree : j.tree.apply c with
  | error e => simp [htree] at hc
  | ok tree =>
    have wf := hj.wellFormed.apply htree
    rw [htree] at hc
    by_cases hremove : ∃ tag, c = .remove tag
    · obtain ⟨tag, rfl⟩ := hremove
      cases hc
      refine ⟨⟨wf, hj.nodup.sublist (List.takeWhile_sublist _), ?_⟩, rfl, ?_⟩
      · intro x hx
        exact (mem_takeWhile_iff.1 hx).2.1
      · intro tag
        refine Iff.trans mem_takeWhile_iff (and_congr_right fun htag => ?_)
        rw [hj.cutOff_eq_false_iff htag]
    · have hkept : ∀ x, j.tree.contains x = true → tree.contains x = true := fun x =>
        hj.wellFormed.contains_apply (fun tag heq => hremove ⟨tag, heq⟩) htree
      have heq : j' = { j with tree := tree } := by
        cases c with
        | remove tag => exact (hremove ⟨tag, rfl⟩).elim
        | _ => exact (Option.some.inj hc).symm
      subst heq
      refine ⟨⟨wf, hj.nodup, fun x hx => hkept x (hj.known x hx)⟩, rfl, ?_⟩
      intro tag
      refine (and_iff_left_of_imp fun htag => ?_).symm
      rw [hj.cutOff_eq_false_iff htag]
      exact ⟨hkept tag (hj.known tag htag), fun x hx =>
        hkept x (hj.known x (List.takeWhile_subset _ hx))⟩

theorem commands (hj : j.Hovers) (cs : List (Command α)) :
    (j.applyAll cs).Hovers ∧ (j.applyAll cs).log = j.log ∧
      ∀ tag, Crossing.scan (tag ∈ j.hover.path) (j.losses (cutOff tag) cs) =
        some (decide (tag ∈ (j.applyAll cs).hover.path)) := by
  induction cs generalizing j with
  | nil => exact ⟨hj, rfl, fun _ => rfl⟩
  | cons c cs ih =>
    cases hc : j.change? c with
    | none =>
      have hstay : j.applyAll (c :: cs) = j := by rw [applyAll, hc]
      rw [hstay]
      refine ⟨hj, rfl, fun tag => ?_⟩
      rw [losses, hc]
      rfl
    | some j' =>
      obtain ⟨hj', hlog, hpath⟩ := hj.change hc
      obtain ⟨hovers, hlog', hscan⟩ := ih hj'
      have hnext : j.applyAll (c :: cs) = j'.applyAll cs := by rw [applyAll, hc]
      rw [hnext]
      refine ⟨hovers, hlog'.trans hlog, fun tag => ?_⟩
      have hlost : Crossing.scan (tag ∈ j.hover.path)
          (if j.cutOff tag j' then [.lost] else []) = some (decide (tag ∈ j'.hover.path)) := by
        by_cases hcut : j.cutOff tag j' = true
        · simp [hpath, hcut, Crossing.scan, Crossing.follow]
        · simp [hpath, hcut]
      rw [losses, hc]
      simp only
      rw [Crossing.scan_append, hlost, Option.bind_some, hscan]

end Hovers

/-! ## Runs -/

variable [Scalar α]

/-- What the input means to a view is in turn, and nothing that was written down before
is changed. -/
structure Hears (j : Journal α) (input : HostInput α) : Prop where
  hovers : (j.after input).Hovers
  grows : j.log <+: (j.after input).log
  scan : ∀ tag, Crossing.scan (tag ∈ j.hover.path) (j.crossings (cutOff tag) tag input) =
    some (decide (tag ∈ (j.after input).hover.path))

/-- Input without losses is heard as it is written down. -/
theorem Turns.hears {input : HostInput α} (h : Turns j (j.after input))
    (hlosses : ∀ lost, j.lossesIn lost input = []) : j.Hears input := by
  obtain ⟨hovers, reports, hlog, hscan⟩ := h
  refine ⟨hovers, ⟨reports, hlog.symm⟩, ?_⟩
  intro tag
  rw [crossings, hlosses, hlog, List.drop_left]
  exact hscan tag

namespace Hovers

theorem hears (hj : j.Hovers) (input : HostInput α) : j.Hears input := by
  cases input with
  | commands cs =>
    obtain ⟨hovers, hlog, hscan⟩ := hj.commands cs
    refine ⟨hovers, hlog ▸ List.prefix_rfl, ?_⟩
    intro tag
    rw [crossings, after, hlog, List.drop_length]
    exact (congrArg _ (List.append_nil _)).trans (hscan tag)
  | pointer e => exact (hj.pointer e).hears fun _ => rfl
  | setRoot root at_ => exact (hj.setRoot root at_).hears fun _ => rfl

theorem scan_history (hj : j.Hovers) (inputs : List (HostInput α)) (tag : Tag) :
    Crossing.scan (tag ∈ j.hover.path) (j.history (cutOff tag) tag inputs) =
      some (decide (tag ∈ (j.run inputs).hover.path)) := by
  induction inputs generalizing j with
  | nil => rfl
  | cons input inputs ih =>
    obtain ⟨hovers, -, hscan⟩ := hj.hears input
    rw [history, Crossing.scan_append, hscan, Option.bind_some, ih hovers]
    rfl

/-- But for the losses, a history is what is written down. -/
theorem filter_history (hj : j.Hovers) (lost : Journal α → Journal α → Bool)
    (inputs : List (HostInput α)) (tag : Tag) :
    Report.crossings tag (j.run inputs).log =
      Report.crossings tag j.log ++ (j.history lost tag inputs).filter (· ≠ .lost) := by
  induction inputs generalizing j with
  | nil => exact (List.append_nil _).symm
  | cons input inputs ih =>
    obtain ⟨hovers, ⟨reports, hlog⟩, -⟩ := hj.hears input
    change Report.crossings tag ((j.after input).run inputs).log = _
    rw [ih hovers, history, crossings, ← hlog, List.drop_left, Report.crossings_append,
      List.filter_append, List.filter_append, filter_lossesIn, Report.filter_crossings,
      List.nil_append, List.append_assoc]

end Hovers

end Journal

namespace HostSession

/-- What the items that have been queued mean to the view with a tag. -/
def crossings (s : HostSession α κ ω) (tag : Tag) : List Crossing :=
  Report.crossings tag ((s.sent ++ s.host.shared.outbox).flatMap (·.reports))

theorem crossings_eq (s : HostSession α κ ω) (tag : Tag) :
    s.crossings tag = Report.crossings tag s.journal.log := by
  rw [s.log_journal, Report.crossings_append, Report.crossings_touches, List.append_nil]
  rfl

/-- Whatever is called, and whatever the callbacks do: for every view, the hover changes
that are queued alternate, beginning with an entry and anew whenever the view is cut
off, and the views on the path are those that were entered last. -/
theorem hovering_in_turn [Scalar α] (b : Behaviour κ ω) (root : Tag) (config : HostConfig α)
    (client : ω) (calls : List (Nat × HostCall α κ)) (tag : Tag) :
    let s := (start root config client : HostSession α κ ω).run b calls
    let history := (Journal.start root config).history (Journal.cutOff tag) tag
      (HostCall.inputs (calls.map (·.2)))
    history.filter (· ≠ .lost) = s.crossings tag ∧ Crossing.InTurn history ∧
      (tag ∈ s.host.hover.path ↔ history.getLast? = some .entered) := by
  intro s history
  have hj : (Journal.start root config).Hovers := .start root config
  have hjournal : s.journal = (Journal.start root config).run (HostCall.inputs (calls.map (·.2))) :=
    (sound_start root config client).journal_run b rfl calls
  have hscan : Crossing.scan (Crossing.lost = .entered) history =
      some (decide (tag ∈ s.journal.hover.path)) := by
    rw [hjournal]
    exact hj.scan_history _ tag
  obtain ⟨hturn, hlast⟩ := Crossing.scan_eq_some_iff.1 hscan
  refine ⟨?_, hturn, ?_⟩
  · rw [crossings_eq, hjournal, hj.filter_history (Journal.cutOff tag)]
    rfl
  · rw [decide_eq_true_iff] at hlast
    refine hlast.trans ?_
    cases history with
    | nil => simp
    | cons c cs => rw [List.getLast?_cons_cons]

/-- The view 3 is hovered over in 2, moved out of it to stand beside it, and hovered
over again when 2 is destroyed. -/
def bereft : List (Nat × HostCall Rat Empty) :=
  let moveAt (millis : UInt32) : PointerEvent Rat :=
    ⟨⟨0⟩, .mouse, .move, ⟨10, 10⟩, 0, default, .ofMillis millis⟩
  let box : Rect Rat := ⟨0, 0, 100, 100⟩
  [(1, .applyAll [.create ⟨1⟩ .view, .setFrame ⟨1⟩ box, .create ⟨2⟩ .view, .setFrame ⟨2⟩ box,
      .insert ⟨2⟩ ⟨1⟩ 0, .create ⟨3⟩ .view, .setFrame ⟨3⟩ box, .insert ⟨3⟩ ⟨2⟩ 0]),
    (1, .pointer (moveAt 1)), (1, .apply (.insert ⟨3⟩ ⟨1⟩ 0)), (1, .apply (.remove ⟨2⟩)),
    (1, .pointer (moveAt 2))]

/-- To begin anew only where the view itself is destroyed is not enough: 3 is entered
twice, and neither left nor destroyed. -/
theorem not_in_turn_if_destroyed : ¬ ∀ (calls : List (Nat × HostCall Rat Empty)) (tag : Tag),
    let s := (start ⟨1⟩ .default () : HostSession Rat Empty Unit).run idle calls
    let history := (Journal.start ⟨1⟩ .default).history (Journal.destroyed tag) tag
      (HostCall.inputs (calls.map (·.2)))
    history.filter (· ≠ .lost) = s.crossings tag ∧ Crossing.InTurn history ∧
      (tag ∈ s.host.hover.path ↔ history.getLast? = some .entered) := by
  intro h
  have htwice : (Journal.start ⟨1⟩ .default).history (Journal.destroyed ⟨3⟩) ⟨3⟩
      (HostCall.inputs (bereft.map (·.2))) = [.entered, .entered] := by cbv
  obtain ⟨-, hturn, -⟩ := h bereft ⟨3⟩
  rw [htwice] at hturn
  revert hturn
  decide

end HostSession

end ViewHost
