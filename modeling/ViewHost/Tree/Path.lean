import ViewHost.Tree.Basic

/-!
# Paths and conversions

The way from a view up to a root gives the path between them, the map from the
root's space into the view's, and the box of the view in the root's space.
-/

namespace ViewHost.Tree

variable {α : Type} [Scalar α]

/-- The way up from `tag` towards `root`. -/
def ascent (t : Tree α) (root tag : Tag) : Except TreeError (Ascent α) :=
  match t.handle? root, t.handle? tag with
  | none, _ => .error (.unknown root)
  | some _, none => .error (.unknown tag)
  | some r, some h => .ok (intact ⟨[], false⟩ (t.climb r t.size h))

/-- The map from a root's space into a view's, from the nodes passed on the way
up: each step is put in front of those above it. -/
def localFromRoot (passed : List (Node α)) : Except TreeError (Transform α) :=
  passed.foldlM (fun acc n =>
    match n.view.localFromParent with
    | some step => .ok (acc.combine step)
    | none => .error (.singular n.view.tag)) .identity

/-- The map from a view's space into a root's. -/
def rootFromLocal (passed : List (Node α)) : Transform α :=
  passed.foldl (fun acc n => n.view.parentFromLocal.combine acc) .identity

/-- The map from the space of `root` into that of `tag`, which is `root` or
lies below it. The first obstacle on the way up is reported. -/
def rootToLocal (t : Tree α) (root tag : Tag) : Except TreeError (Transform α) := do
  let way ← t.ascent root tag
  let m ← localFromRoot way.passed
  if way.arrived then return m else throw (.notInside tag root)

/-- A point in the space of `root`, in the space of `tag`. -/
def convertPoint (t : Tree α) (p : Vec2 α) (root tag : Tag) : Except TreeError (Vec2 α) :=
  (t.rootToLocal root tag).map (·.applyToPoint p)

/-- The box around `tag` in the space of `root`. -/
def globalFrame (t : Tree α) (tag root : Tag) : Except TreeError (Rect α) := do
  let way ← t.ascent root tag
  if way.arrived then
    match t.view? tag with
    | some v => return (rootFromLocal way.passed).applyToRect v.bounds
    | none => throw (.unknown tag)
  else throw (.notInside tag root)

/-- The tags from `root` down to `tag`, both included. -/
def path? (t : Tree α) (root tag : Tag) : Option (List Tag) :=
  match t.ascent root tag with
  | .ok way =>
    if way.arrived then some (root :: (way.passed.map (·.view.tag)).reverse) else none
  | .error _ => none

end ViewHost.Tree
