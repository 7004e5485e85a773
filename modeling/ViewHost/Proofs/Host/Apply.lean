import Mathlib.Data.List.TakeWhile
import ViewHost.Host.Basic

/-!
# What commands leave alone

A command from the layout engine changes the tree of a host and, where it destroys views, cuts
the path hovered over. The touches on those views are none of its business: they go on with the
target they have.
-/

namespace ViewHost.Host

variable {α κ ω : Type} {h h' h'' : Host α κ ω} {c : Command α} {e : TreeError}

/-- The path hovered over once a command has led to a tree. -/
def hoverAfter (h : Host α κ ω) (c : Command α) (tree : Tree α) : HoverTracker :=
  match c with
  | .remove _ => h.hover.retainExisting tree
  | _ => h.hover

theorem path_hoverAfter_isPrefix (h : Host α κ ω) (c : Command α) (tree : Tree α) :
    (h.hoverAfter c tree).path <+: h.hover.path := by
  cases c with
  | remove tag => exact List.takeWhile_prefix _
  | _ => exact List.prefix_rfl

theorem hoverAfter_of_ne_remove (hc : ∀ tag, c ≠ .remove tag) (tree : Tree α) :
    h.hoverAfter c tree = h.hover := by
  cases c with
  | remove tag => exact absurd rfl (hc tag)
  | _ => rfl

/-- What a host has come to when at most the tree is another, and the path hovered over shorter.
Touches, their updates that are pending or sealed, the queue, the frame scheduler and the
shortcuts are all among what is the same. -/
structure ViewsOnly (h h' : Host α κ ω) : Prop where
  rest : h' = { h with tree := h'.tree, hover := h'.hover }
  path : h'.hover.path <+: h.hover.path

namespace ViewsOnly

theorem refl (h : Host α κ ω) : ViewsOnly h h := ⟨rfl, List.prefix_rfl⟩

theorem trans (hv : ViewsOnly h h') (hv' : ViewsOnly h' h'') : ViewsOnly h h'' where
  rest := by
    rw [hv'.rest, hv.rest]
  path := hv'.path.trans hv.path

end ViewsOnly

variable [Scalar α]

theorem apply_eq_map (h : Host α κ ω) (c : Command α) : h.apply c =
    (h.tree.apply c).map fun tree => { h with tree := tree, hover := h.hoverAfter c tree } := by
  rw [apply]
  cases h.tree.apply c with
  | error e => rfl
  | ok tree => cases c <;> rfl

theorem apply_eq_error_iff : h.apply c = .error e ↔ h.tree.apply c = .error e := by
  rw [apply_eq_map]
  cases h.tree.apply c with
  | error e' => simp [Except.map]
  | ok tree => simp [Except.map]

theorem exists_of_apply_eq_ok (hc : h.apply c = .ok h') : ∃ tree, h.tree.apply c = .ok tree ∧
    h' = { h with tree := tree, hover := h.hoverAfter c tree } := by
  rw [apply_eq_map] at hc
  cases htree : h.tree.apply c with
  | error e => simp [htree, Except.map] at hc
  | ok tree =>
    rw [htree] at hc
    cases hc
    exact ⟨tree, rfl, rfl⟩

theorem ViewsOnly.apply (hc : h.apply c = .ok h') : ViewsOnly h h' := by
  obtain ⟨tree, -, rfl⟩ := exists_of_apply_eq_ok hc
  exact ⟨rfl, path_hoverAfter_isPrefix h c tree⟩

theorem ViewsOnly.applyAll (h : Host α κ ω) (cs : List (Command α)) :
    ViewsOnly h (h.applyAll cs).2 := by
  induction cs generalizing h with
  | nil => exact .refl h
  | cons c cs ih =>
    rw [Host.applyAll]
    cases hc : h.apply c with
    | error e => exact .refl h
    | ok h' => exact (ViewsOnly.apply hc).trans (ih h')

end ViewHost.Host
