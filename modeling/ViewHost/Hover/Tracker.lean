import ViewHost.Tree.HitTest
import ViewHost.Tree.Path

/-!
# Hovering

A pointer that is not in contact hovers over the views from a root down to the
one under it. When it moves on, the views it leaves are left deepest first and
those it comes to are entered root first. Views on both paths hear nothing.
-/

namespace ViewHost

variable {α : Type} [Scalar α]

inductive HoverChange where
  | enter (tag : Tag)
  | leave (tag : Tag)
  deriving DecidableEq, Repr

/-- The views hovered over, root first. -/
structure HoverTracker where
  path : List Tag
  deriving DecidableEq

namespace HoverTracker

def new : HoverTracker := ⟨[]⟩

/-- The deepest view hovered over. -/
def target? (t : HoverTracker) : Option Tag := t.path.getLast?

/-- The number of views that two paths have in common at their start. -/
def common : List Tag → List Tag → Nat
  | a :: as, b :: bs => if a = b then common as bs + 1 else 0
  | _, _ => 0

/-- Replaces the path. -/
def updatePath (t : HoverTracker) (next : List Tag) : List HoverChange × HoverTracker :=
  let n := common t.path next
  ((t.path.drop n).reverse.map .leave ++ (next.drop n).map .enter, ⟨next⟩)

/-- Follows the pointer to a point in the space of `root`. -/
def update (t : HoverTracker) (tree : Tree α) (root : Tag) (point : Vec2 α) :
    List HoverChange × HoverTracker :=
  t.updatePath (((tree.hitTest point root).bind (tree.path? root)).getD [])

/-- The pointer is gone: everything is left. -/
def clear (t : HoverTracker) : List HoverChange × HoverTracker := t.updatePath []

/-- The cursor of the deepest view on the path that asks for one. -/
def cursor (t : HoverTracker) (tree : Tree α) : Cursor :=
  (t.path.reverse.findSome? fun tag =>
    match tree.view? tag with
    | some v => if v.cursor = .inherit then none else some v.cursor
    | none => none).getD .default

/-- Cuts the path where it names a view that is gone. Nothing is left by it. -/
def retainExisting (t : HoverTracker) (tree : Tree α) : HoverTracker :=
  ⟨t.path.takeWhile tree.contains⟩

end HoverTracker

end ViewHost
