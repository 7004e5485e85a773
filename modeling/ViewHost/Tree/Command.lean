import ViewHost.Tree.Basic

/-!
# Commands

The layout engine changes the tree by commands. A command that names an unknown
view is ignored, except where it creates views or links.
-/

namespace ViewHost

variable {α : Type} [Scalar α]

/-- A change to the tree. -/
inductive Command (α : Type) where
  | create (tag : Tag) (kind : ViewKind)
  | insert (tag parent : Tag) (index : Nat)
  | remove (tag : Tag)
  | detach (tag : Tag)
  | setFrame (tag : Tag) (frame : Rect α)
  | setTransform (tag : Tag) (transform : Transform α)
  | setZ (tag : Tag) (z : Int)
  | setClip (tag : Tag) (clips : Bool)
  | setHidden (tag : Tag) (hidden : Bool)
  | setPointerEvents (tag : Tag) (mode : PointerEvents)
  | setHitSlop (tag : Tag) (insets : Insets α)
  | setCursor (tag : Tag) (cursor : Cursor)
  deriving DecidableEq

namespace Tree

def apply (t : Tree α) : Command α → Except TreeError (Tree α)
  | .create tag kind => t.create tag kind
  | .insert tag parent index => t.insert tag parent index
  | .remove tag => .ok (t.remove tag).2
  | .detach tag => .ok (t.detach tag).2
  | .setFrame tag frame => .ok (t.setFrame tag frame).2
  | .setTransform tag transform => .ok (t.setTransform tag transform).2
  | .setZ tag z => .ok (t.setZ tag z).2
  | .setClip tag clips => .ok (t.setClips tag clips).2
  | .setHidden tag hidden => .ok (t.setHidden tag hidden).2
  | .setPointerEvents tag mode => .ok (t.setPointerEvents tag mode).2
  | .setHitSlop tag insets => .ok (t.setHitSlop tag insets).2
  | .setCursor tag cursor => .ok (t.setCursor tag cursor).2

end Tree

end ViewHost
