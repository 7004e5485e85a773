import ViewHost.Proofs.Tree.Subtree

/-!
# Refused commands

A tree is changed in place, by one write after the other, and a command that is refused stops
where it is: what it has written until then is not taken back. That it has written nothing is
because what it may be refused for, a tag that is taken or not known and a parent that lies below
the view to be put under it, is looked at before the first write. An operation that gives either
a new tree or a reason cannot say so, and therefore those that may be refused are written out
here once more, as programs that keep what they have written.
-/

namespace ViewHost.Tree

variable {α : Type} {t t' : Tree α} {tag parent : Tag} {kind : ViewKind} {index : Nat}
variable {c : Command α} {e : TreeError}

/-! ## Reasons -/

/-- Why a tree refuses a command. -/
inductive Refused (t : Tree α) : Command α → TreeError → Prop where
  | duplicate {tag : Tag} {kind : ViewKind} (htag : t.contains tag = true) :
      Refused t (.create tag kind) (.duplicate tag)
  | unknown {tag parent : Tag} {index : Nat} (htag : t.contains tag = false) :
      Refused t (.insert tag parent index) (.unknown tag)
  | unknownParent {tag parent : Tag} {index : Nat} (htag : t.contains tag = true)
      (hparent : t.contains parent = false) :
      Refused t (.insert tag parent index) (.unknown parent)
  | cycle {tag parent : Tag} {index : Nat} (htag : t.contains tag = true)
      (hparent : t.contains parent = true) (hbelow : t.Within tag parent) :
      Refused t (.insert tag parent index) (.cycle tag parent)

theorem insert_of_unknown (htag : t.contains tag = false) :
    t.insert tag parent index = .error (.unknown tag) := by
  rw [Tree.insert, handle?_eq_none_iff.2 htag]

theorem insert_of_unknownParent (htag : t.contains tag = true)
    (hparent : t.contains parent = false) :
    t.insert tag parent index = .error (.unknown parent) := by
  obtain ⟨h, hh⟩ := exists_handle_iff.1 htag
  rw [Tree.insert, hh, handle?_eq_none_iff.2 hparent]

namespace WellFormed

variable (wf : t.WellFormed)

include wf

theorem insert_of_within (htag : t.contains tag = true) (hparent : t.contains parent = true)
    (hbelow : t.Within tag parent) : t.insert tag parent index = .error (.cycle tag parent) := by
  obtain ⟨h, hh⟩ := exists_handle_iff.1 htag
  obtain ⟨p, hp⟩ := exists_handle_iff.1 hparent
  rw [Tree.insert, hh, hp]
  dsimp only
  rw [wf.move?_eq_none (wf.mem_nodes_of_handle? hp) ((wf.within_iff hh hp).1 hbelow)]
  rfl

theorem insert_of_not_within (htag : t.contains tag = true) (hparent : t.contains parent = true)
    (hbelow : ¬ t.Within tag parent) (index : Nat) :
    ∃ t', t.insert tag parent index = .ok t' := by
  obtain ⟨h, hh⟩ := exists_handle_iff.1 htag
  obtain ⟨p, hp⟩ := exists_handle_iff.1 hparent
  obtain ⟨-, t', ht', -⟩ := wf.move?_eq_ok (wf.mem_nodes_of_handle? hh) (wf.mem_nodes_of_handle? hp)
    (mt (wf.within_iff hh hp).2 hbelow) index
  refine ⟨t', ?_⟩
  rw [Tree.insert, hh, hp]
  dsimp only
  rw [ht']
  rfl

variable [Scalar α]

theorem apply_eq_error_of_refused (he : t.Refused c e) : t.apply c = .error e := by
  cases he with
  | duplicate htag => exact if_pos htag
  | unknown htag => exact insert_of_unknown htag
  | unknownParent htag hparent => exact insert_of_unknownParent htag hparent
  | cycle htag hparent hbelow => exact wf.insert_of_within htag hparent hbelow

/-- There is no other reason. -/
theorem refused_of_apply_eq_error (he : t.apply c = .error e) : t.Refused c e := by
  cases c with
  | create tag kind =>
    cases htag : t.contains tag with
    | false => simp [Tree.apply, Tree.create, htag] at he
    | true =>
      cases (wf.apply_eq_error_of_refused (.duplicate htag)).symm.trans he
      exact .duplicate htag
  | insert tag parent index =>
    cases htag : t.contains tag with
    | false =>
      cases (insert_of_unknown htag).symm.trans he
      exact .unknown htag
    | true =>
      cases hparent : t.contains parent with
      | false =>
        cases (insert_of_unknownParent htag hparent).symm.trans he
        exact .unknownParent htag hparent
      | true =>
        by_cases hbelow : t.Within tag parent
        · cases (wf.insert_of_within htag hparent hbelow).symm.trans he
          exact .cycle htag hparent hbelow
        · obtain ⟨t', ht'⟩ := wf.insert_of_not_within htag hparent hbelow index
          cases ht'.symm.trans he
  | _ => cases he

theorem apply_eq_error_iff : t.apply c = .error e ↔ t.Refused c e :=
  ⟨wf.refused_of_apply_eq_error, wf.apply_eq_error_of_refused⟩

end WellFormed

end Tree

/-! ## Programs -/

/-- What comes of a program that writes all or nothing. -/
def allOrNothing {σ ε : Type} (s : σ) : Except ε σ → EStateM.Result ε σ Unit
  | .ok s' => .ok () s'
  | .error e => .error e s

namespace Tree.InPlace

variable {α : Type} {t : Tree α} {tag parent : Tag} {kind : ViewKind} {index : Nat}

/-- The handle of a view, which has to be in the tree. -/
def handle (tag : Tag) : EStateM TreeError (Tree α) Handle := do
  match (← get).handle? tag with
  | some h => return h
  | none => throw (.unknown tag)

/-- A new view is put into the store first and then into the tag table. -/
def create [Scalar α] (tag : Tag) (kind : ViewKind) : EStateM TreeError (Tree α) Unit := do
  let t ← get
  if t.contains tag then throw (.duplicate tag)
  let h : Handle := ⟨t.issued⟩
  modify fun t => { t with
    nodes := t.nodes.insert h ⟨.new tag kind, none, [], []⟩
    issued := t.issued + 1 }
  modify fun t => { t with handles := t.handles.insert tag h }

/-- A view is taken off its old parent first and then put under the new one. -/
def insert (tag parent : Tag) (index : Nat) : EStateM TreeError (Tree α) Unit := do
  let h ← handle tag
  let p ← handle parent
  let t ← get
  if (intact ⟨[], false⟩ (t.climb h t.size p)).arrived then throw (.cycle tag parent)
  modify fun t => (intact (false, t) (t.unlink h)).2
  modify fun t => intact t (t.link h p index)

/-- A command on a tree in place. Only the creation of views and links can be refused. -/
def apply [Scalar α] : Command α → EStateM TreeError (Tree α) Unit
  | .create tag kind => create tag kind
  | .insert tag parent index => insert tag parent index
  | .remove tag => modify fun t => (t.remove tag).2
  | .detach tag => modify fun t => (t.detach tag).2
  | .setFrame tag frame => modify fun t => (t.setFrame tag frame).2
  | .setTransform tag transform => modify fun t => (t.setTransform tag transform).2
  | .setZ tag z => modify fun t => (t.setZ tag z).2
  | .setClip tag clips => modify fun t => (t.setClips tag clips).2
  | .setHidden tag hidden => modify fun t => (t.setHidden tag hidden).2
  | .setPointerEvents tag mode => modify fun t => (t.setPointerEvents tag mode).2
  | .setHitSlop tag insets => modify fun t => (t.setHitSlop tag insets).2
  | .setCursor tag cursor => modify fun t => (t.setCursor tag cursor).2

theorem run_create [Scalar α] (t : Tree α) (tag : Tag) (kind : ViewKind) :
    (create tag kind).run t = allOrNothing t (t.create tag kind) := by
  rw [Tree.create]
  cases htag : t.contains tag <;> simp [create, htag, allOrNothing]

theorem run_handle (t : Tree α) (tag : Tag) : (handle tag).run t =
    match t.handle? tag with
    | some h => .ok h t
    | none => .error (.unknown tag) t := by
  rw [handle]
  simp only [EStateM.run_bind, EStateM.run_get]
  cases t.handle? tag <;> rfl

theorem run_insert (wf : t.WellFormed) (tag parent : Tag) (index : Nat) :
    (insert tag parent index).run t = allOrNothing t (t.insert tag parent index) := by
  rw [Tree.insert, insert, EStateM.run_bind, run_handle]
  cases hh : t.handle? tag with
  | none => rfl
  | some h =>
    simp only [EStateM.run_bind, run_handle]
    cases hp : t.handle? parent with
    | none => rfl
    | some p =>
      have hlive := wf.mem_nodes_of_handle? hh
      have hplive := wf.mem_nodes_of_handle? hp
      obtain ⟨way, hway, harrived⟩ := wf.climb_eq_ok h hplive
      obtain ⟨t₁, ht₁, -⟩ := wf.unlink_eq_ok hlive
      simp only [EStateM.run_get, hway, intact_ok]
      cases ha : way.arrived with
      | true =>
        rw [wf.move?_eq_none hplive (harrived.1 ha)]
        rfl
      | false =>
        have hanc : ¬ t.IsAncestor h p := fun hanc => by simp [harrived.2 hanc] at ha
        obtain ⟨-, t', ht', -⟩ := wf.move?_eq_ok hlive hplive hanc index
        -- a move that is not refused is the two writes, one after the other
        have hlink : t₁.link h p index = .ok t' := by
          rw [move?] at ht'
          simp only [hway, ht₁, ok_bind, ha, Bool.false_eq_true, if_false] at ht'
          cases hlink : t₁.link h p index with
          | error f => simp [hlink, bind, Except.bind] at ht'
          | ok t₂ =>
            rw [hlink] at ht'
            cases ht'
            rfl
        rw [ht']
        simp [ht₁, hlink, allOrNothing]

theorem run_apply [Scalar α] (wf : t.WellFormed) (c : Command α) :
    (apply c).run t = allOrNothing t (t.apply c) := by
  cases c with
  | create tag kind => exact run_create t tag kind
  | insert tag parent index => exact run_insert wf tag parent index
  | _ => rfl

end Tree.InPlace

end ViewHost
