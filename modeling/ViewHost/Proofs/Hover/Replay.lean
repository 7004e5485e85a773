import ViewHost.Proofs.Hover.Crossings
import ViewHost.Proofs.Tree.Path

/-!
# Playing changes back

Played on a stack of views, the deepest on top, the changes of a hover tracker lead from
each path to the next. A view that is left is on top when its turn comes, because the
deepest is left first, and those that are entered are put on top of what the two paths
share.

Nothing is assumed of the paths, which may even name a view more than once. It is the
places on a path that are shared then, and a view at a shared place is left or entered all
the same if it has another place behind those that are shared. There is no way from one
path to the other with fewer changes: each of them takes the stack one step closer to the
new path at most, and the changes of the tracker do so every time.
-/

namespace ViewHost

variable {α : Type} {tag : Tag} {shared left entered old next : List Tag}

namespace HoverChange

/-- The stack, its top last, after a change. Only what is on top can be left. -/
def play (stack : List Tag) : HoverChange → Option (List Tag)
  | enter tag => some (stack ++ [tag])
  | leave tag => if stack.getLast? = some tag then some stack.dropLast else none

/-- The stack after some changes, unless one of them gets stuck. -/
def replay (stack : List Tag) (changes : List HoverChange) : Option (List Tag) :=
  changes.foldlM play stack

/-- Two paths: what they have in common at their start, and the rest of each. -/
structure Parts (old next shared left entered : List Tag) : Prop where
  old_eq : old = shared ++ left
  next_eq : next = shared ++ entered
  longest : ∀ front, front <+: old → front <+: next → front <+: shared

@[simp] theorem replay_nil (stack : List Tag) : replay stack [] = some stack := rfl

theorem replay_append (stack : List Tag) (changes more : List HoverChange) :
    replay stack (changes ++ more) = (replay stack changes).bind (replay · more) :=
  List.foldlM_append

theorem play_leave (stack : List Tag) (tag : Tag) :
    play (stack ++ [tag]) (.leave tag) = some stack := by
  simp [play]

theorem replay_leaves (shared left : List Tag) :
    replay (shared ++ left) (left.reverse.map leave) = some shared := by
  induction left using List.reverseRecOn with
  | nil => simp
  | append_singleton left tag ih =>
    rw [List.reverse_concat, List.map_cons, ← List.append_assoc, replay, List.foldlM_cons,
      play_leave]
    exact ih

theorem replay_enters (shared entered : List Tag) :
    replay shared (entered.map enter) = some (shared ++ entered) := by
  induction entered generalizing shared with
  | nil => simp
  | cons tag entered ih =>
    rw [List.map_cons, replay, List.foldlM_cons, List.append_cons]
    exact ih (shared ++ [tag])

/-- What two paths share stays on the stack all the while. -/
theorem exists_replay_of_append_eq {played rest : List HoverChange}
    (h : left.reverse.map leave ++ entered.map enter = played ++ rest) :
    ∃ stack, replay (shared ++ left) played = some stack ∧ shared <+: stack := by
  rcases List.append_eq_append_iff.1 h with ⟨tail, rfl, hentered⟩ | ⟨tail, hleft, -⟩
  · obtain ⟨done, more, rfl, rfl, -⟩ := List.map_eq_append_iff.1 hentered
    refine ⟨shared ++ done, ?_, List.prefix_append _ _⟩
    rw [replay_append, replay_leaves, Option.bind_some, replay_enters]
  · obtain ⟨done, more, hsplit, rfl, -⟩ := List.map_eq_append_iff.1 hleft
    obtain rfl : left = more.reverse ++ done.reverse := by
      rw [← List.reverse_append, ← hsplit, List.reverse_reverse]
    refine ⟨shared ++ more.reverse, ?_, List.prefix_append _ _⟩
    rw [← List.append_assoc, ← replay_leaves, List.reverse_reverse]

end HoverChange

namespace HoverTracker

open HoverChange

/-! ## The longest common start -/

theorem length_le_common {front : List Tag} (hold : front <+: old) (hnext : front <+: next) :
    front.length ≤ common old next := by
  fun_induction common old next generalizing front with
  | case1 a as bs ih =>
    cases front with
    | nil => exact Nat.zero_le _
    | cons x front =>
      rw [List.cons_prefix_cons] at hold hnext
      exact Nat.succ_le_succ (ih hold.2 hnext.2)
  | case2 a as b bs hne =>
    cases front with
    | nil => exact Nat.zero_le _
    | cons x front =>
      rw [List.cons_prefix_cons] at hold hnext
      exact absurd (hold.1.symm.trans hnext.1) hne
  | case3 as bs hnil =>
    cases front with
    | nil => exact Nat.zero_le _
    | cons x front =>
      obtain ⟨as, rfl⟩ := hold
      obtain ⟨bs, rfl⟩ := hnext
      exact (hnil x _ x _ rfl rfl).elim

theorem common_le_length (old next : List Tag) :
    common old next ≤ old.length ∧ common old next ≤ next.length := by
  fun_induction common old next with
  | case1 a as bs ih => exact ⟨Nat.succ_le_succ ih.1, Nat.succ_le_succ ih.2⟩
  | case2 => exact ⟨Nat.zero_le _, Nat.zero_le _⟩
  | case3 => exact ⟨Nat.zero_le _, Nat.zero_le _⟩

theorem common_self (path : List Tag) : common path path = path.length :=
  Nat.le_antisymm (common_le_length path path).1 (length_le_common List.prefix_rfl List.prefix_rfl)

/-- One more view on a path is one more that it may share with another. -/
theorem common_concat (old next : List Tag) (tag : Tag) :
    common old next ≤ common (old ++ [tag]) next ∧
      common (old ++ [tag]) next ≤ common old next + 1 := by
  fun_induction common old next with
  | case1 a as bs ih =>
    rw [List.cons_append, common, if_pos rfl]
    omega
  | case2 a as b bs hne =>
    rw [List.cons_append, common, if_neg hne]
    omega
  | case3 as bs hnil =>
    refine ⟨Nat.zero_le _, ?_⟩
    cases as with
    | nil =>
      have := (common_le_length [tag] bs).1
      simpa using this
    | cons a as =>
      cases bs with
      | nil => exact Nat.zero_le _
      | cons b bs => exact (hnil a as b bs rfl rfl).elim

/-! ## One change of the path -/

theorem exists_parts (t : HoverTracker) (next : List Tag) :
    ∃ shared left entered, Parts t.path next shared left entered ∧
      t.updatePath next = (left.reverse.map .leave ++ entered.map .enter, ⟨next⟩) := by
  refine ⟨t.path.take (common t.path next), t.path.drop (common t.path next),
    next.drop (common t.path next), ⟨?_, ?_, fun front hold hnext => ?_⟩, rfl⟩
  · rw [List.take_append_drop]
  · rw [take_common, List.take_append_drop]
  · refine List.prefix_of_prefix_length_le hold (List.take_prefix _ _) ?_
    rw [List.length_take, Nat.min_eq_left (common_le_length _ _).1]
    exact length_le_common hold hnext

theorem replay_updatePath (t : HoverTracker) (next : List Tag) :
    replay t.path (t.updatePath next).1 = some next := by
  obtain ⟨shared, left, entered, hparts, hchanges⟩ := t.exists_parts next
  rw [hchanges, replay_append, hparts.old_eq, replay_leaves, Option.bind_some, replay_enters,
    hparts.next_eq]

theorem length_updatePath (t : HoverTracker) (next : List Tag) :
    (t.updatePath next).1.length + 2 * common t.path next = t.path.length + next.length := by
  have hle := common_le_length t.path next
  simp only [updatePath, List.length_append, List.length_map, List.length_reverse,
    List.length_drop]
  omega

/-- A change adds to what the stack shares with a path no more than it has to. -/
theorem length_le_of_replay {changes : List HoverChange} (h : replay old changes = some next) :
    old.length + next.length ≤ changes.length + 2 * common old next := by
  induction changes generalizing old with
  | nil =>
    cases h
    rw [common_self]
    exact Nat.le_of_eq (by simp; omega)
  | cons change changes ih =>
    rw [replay, List.foldlM_cons] at h
    obtain ⟨stack, hplay, hrest⟩ := Option.bind_eq_some_iff.1 h
    have hstack := ih hrest
    rw [List.length_cons]
    cases change with
    | enter tag =>
      cases hplay
      have hcommon := common_concat old next tag
      rw [List.length_append, List.length_singleton] at hstack
      omega
    | leave tag =>
      rw [play, Option.ite_none_right_eq_some, List.getLast?_eq_some_iff] at hplay
      obtain ⟨⟨above, rfl⟩, hstack'⟩ := hplay
      rw [List.dropLast_concat, Option.some.injEq] at hstack'
      subst hstack'
      have hcommon := common_concat above next tag
      rw [List.length_append, List.length_singleton]
      omega

theorem length_updatePath_le (t : HoverTracker) {changes : List HoverChange}
    (h : replay t.path changes = some next) :
    (t.updatePath next).1.length ≤ changes.length := by
  have hlength := t.length_updatePath next
  have hleast := length_le_of_replay h
  omega

theorem updatePath_eq_nil_iff (t : HoverTracker) :
    (t.updatePath next).1 = [] ↔ next = t.path := by
  constructor
  · intro hnil
    have hreplay := t.replay_updatePath next
    rw [hnil] at hreplay
    exact (Option.some.inj hreplay).symm
  · rintro rfl
    have hlength := t.length_updatePath t.path
    rw [common_self] at hlength
    exact List.eq_nil_of_length_eq_zero (by omega)

end HoverTracker

namespace HoverChange.Parts

/-- A view is left if it has more places on the old path than on what is shared. -/
theorem leave_mem_changes_iff (h : Parts old next shared left entered) :
    leave tag ∈ left.reverse.map leave ++ entered.map enter ↔
      shared.count tag < old.count tag := by
  rw [h.old_eq, List.count_append, Nat.lt_add_right_iff_pos, List.count_pos_iff]
  simp

/-- A view is entered if it has more places on the new path than on what is shared. -/
theorem enter_mem_changes_iff (h : Parts old next shared left entered) :
    enter tag ∈ left.reverse.map leave ++ entered.map enter ↔
      shared.count tag < next.count tag := by
  rw [h.next_eq, List.count_append, Nat.lt_add_right_iff_pos, List.count_pos_iff]
  simp

/-- On a path that names no view twice, the views at shared places have no others. -/
theorem not_mem_changes (h : Parts old next shared left entered) (htag : tag ∈ shared) :
    (old.Nodup → leave tag ∉ left.reverse.map leave ++ entered.map enter) ∧
      (next.Nodup → enter tag ∉ left.reverse.map leave ++ entered.map enter) := by
  have hshared := List.count_pos_iff.2 htag
  refine ⟨fun hold => ?_, fun hnext => ?_⟩
  · have honce := List.nodup_iff_count_le_one.1 hold tag
    rw [h.leave_mem_changes_iff]
    omega
  · have honce := List.nodup_iff_count_le_one.1 hnext tag
    rw [h.enter_mem_changes_iff]
    omega

end HoverChange.Parts

/-! ## Runs -/

/-- A call of a hover tracker. -/
inductive HoverCall (α : Type) where
  | update (tree : Tree α) (root : Tag) (point : Vec2 α)
  | updatePath (next : List Tag)
  | clear

/-- The path that a call is about. -/
def HoverCall.path [Scalar α] : HoverCall α → List Tag
  | update tree root point => ((tree.hitTest point root).bind (tree.path? root)).getD []
  | updatePath next => next
  | clear => []

/-- The way down to a view that is hit goes past no view twice. -/
theorem HoverCall.nodup_path_update [Scalar α] {tree : Tree α} (ht : tree.Reachable) (root : Tag)
    (point : Vec2 α) : (HoverCall.update tree root point).path.Nodup := by
  rw [path]
  cases hpath : (tree.hitTest point root).bind (tree.path? root) with
  | none => exact .nil
  | some path =>
    obtain ⟨hit, -, hpath⟩ := Option.bind_eq_some_iff.1 hpath
    exact (ht.wellFormed.path?_distinct hpath).1

namespace HoverTracker

open HoverChange

variable [Scalar α]

/-- The changes that a call brings, and the tracker after it. -/
def answer (t : HoverTracker) : HoverCall α → List HoverChange × HoverTracker
  | .update tree root point => t.update tree root point
  | .updatePath next => t.updatePath next
  | .clear => t.clear

/-- The changes that some calls bring, oldest first, and the tracker after them. -/
def run (t : HoverTracker) : List (HoverCall α) → List HoverChange × HoverTracker
  | [] => ([], t)
  | call :: calls =>
    let (changes, t) := t.answer call
    let (more, t) := t.run calls
    (changes ++ more, t)

theorem answer_eq (t : HoverTracker) (call : HoverCall α) :
    t.answer call = t.updatePath call.path := by
  cases call <;> rfl

theorem replay_run (t : HoverTracker) (calls : List (HoverCall α)) :
    replay t.path (t.run calls).1 = some (t.run calls).2.path := by
  induction calls generalizing t with
  | nil => rfl
  | cons call calls ih =>
    rw [run, answer_eq]
    simp only
    rw [replay_append, replay_updatePath, Option.bind_some]
    exact ih ⟨call.path⟩

/-- Whatever the tracker is called with: its changes, played on an empty stack, do not get
stuck, and they end with the path. By the next call the path becomes the one that the call
is about. What the old path has behind the longest start that it shares with the new one is
left, deepest first, and then what the new path has there is entered, the root first, while
what they share stays on the stack. A view is left or entered if and only if the old or the
new path names it more often than that start does. So nothing of the start is left or entered
on paths without repetitions, such as the pointer finds in a tree. No changes that lead from
the one path to the other are fewer, and there are none if the path stays as it was. -/
theorem changes_replay_to_path (calls : List (HoverCall α)) :
    let t := (new.run calls).2
    replay [] (new.run calls).1 = some t.path ∧
    ∀ call : HoverCall α, ∃ shared left entered,
      Parts t.path call.path shared left entered ∧
      t.answer call = (left.reverse.map .leave ++ entered.map .enter, ⟨call.path⟩) ∧
      let changes := (t.answer call).1
      (∀ played rest, changes = played ++ rest →
        ∃ stack, replay t.path played = some stack ∧ shared <+: stack) ∧
      (∀ tag, (.leave tag ∈ changes ↔ shared.count tag < t.path.count tag) ∧
        (.enter tag ∈ changes ↔ shared.count tag < call.path.count tag)) ∧
      (∀ tag ∈ shared, (t.path.Nodup → .leave tag ∉ changes) ∧
        (call.path.Nodup → .enter tag ∉ changes)) ∧
      (∀ tree root point, call = .update tree root point → tree.Reachable → call.path.Nodup) ∧
      (∀ others, replay t.path others = some call.path → changes.length ≤ others.length) ∧
      (changes = [] ↔ call.path = t.path) := by
  intro t
  refine ⟨new.replay_run calls, fun call => ?_⟩
  obtain ⟨shared, left, entered, hparts, hchanges⟩ := t.exists_parts call.path
  refine ⟨shared, left, entered, hparts, (t.answer_eq call).trans hchanges, ?_⟩
  rw [answer_eq]
  refine ⟨fun played rest hsplit => ?_, fun tag => ?_, fun tag htag => ?_,
    fun tree root point hcall ht => ?_, fun others hothers => ?_, ?_⟩
  · rw [hchanges] at hsplit
    rw [hparts.old_eq]
    exact exists_replay_of_append_eq hsplit
  · rw [hchanges]
    exact ⟨hparts.leave_mem_changes_iff, hparts.enter_mem_changes_iff⟩
  · rw [hchanges]
    exact hparts.not_mem_changes htag
  · subst hcall
    exact HoverCall.nodup_path_update ht root point
  · exact t.length_updatePath_le hothers
  · exact t.updatePath_eq_nil_iff

/-- A path gets longer by a view that is on it already: the view is entered, although it is all
that the two paths share. -/
theorem not_spared_if_named_twice :
    ¬ ∀ (calls : List (HoverCall Float32)) (call : HoverCall Float32) (shared left entered),
      let t := (new.run calls).2
      Parts t.path call.path shared left entered →
        ∀ tag ∈ shared, .leave tag ∉ (t.answer call).1 ∧ .enter tag ∉ (t.answer call).1 := by
  intro h
  have hparts : Parts [⟨1⟩] [⟨1⟩, ⟨1⟩] [⟨1⟩] [] [⟨1⟩] := ⟨rfl, rfl, fun _ hold _ => hold⟩
  have hspared := h [.updatePath [⟨1⟩]] (.updatePath [⟨1⟩, ⟨1⟩]) _ _ _ hparts ⟨1⟩
    (List.mem_singleton_self _)
  exact hspared.2 (by decide)

end HoverTracker

end ViewHost
