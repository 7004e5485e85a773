import ViewHost.Tree.Basic

/-!
# Hit testing

The view under a point is found by going down from a root, top-most child
first. A view that is hidden or takes no pointer events, or that clips and does
not contain the point, bars itself and all below it; a view whose transform is
singular shows nothing and is passed over.
-/

namespace ViewHost.Tree

variable {α : Type} [Scalar α]

/-- Whether a view bars itself and all below it from a point in its space. -/
def bars (v : View α) (p : Vec2 α) : Bool :=
  v.hidden || v.pointerEvents = .none || (v.clips && !v.bounds.contains p)

/-- Whether a point in a view's space hits the view itself. -/
def hits (v : View α) (p : Vec2 α) : Bool :=
  v.pointerEvents.allowsSelf && v.hitBounds.contains p

/-- The top-most node at or below `h` that is hit by a point in the space of
`h`. The budget bounds the depth of the search. -/
def search (t : Tree α) : Nat → Handle → Vec2 α → Except Fault (Option Handle)
  | 0, _, _ => .error .endless
  | depth + 1, h, p => do
    let n ← t.node h
    if bars n.view p then return none
    let below ←
      if n.view.pointerEvents.allowsChildren then
        n.paintOrder.reverse.findSomeM? fun c => do
          match (← t.node c).view.localFromParent with
          | some toChild => t.search depth c (toChild.applyToPoint p)
          | none => return none
      else pure none
    match below with
    | some hit => return some hit
    | none => return if hits n.view p then some h else none

/-- The top-most view at or below `root` under a point in the root's space.
There may be none. -/
def hitTest (t : Tree α) (p : Vec2 α) (root : Tag) : Option Tag := do
  let h ← t.handle? root
  intact none do
    match ← t.search t.size h p with
    | some hit => return some (← t.tagAt hit)
    | none => return none

end ViewHost.Tree
