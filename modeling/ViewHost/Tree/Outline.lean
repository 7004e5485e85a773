import ViewHost.Tree.Basic
import ViewHost.Decimal.Shortest

/-!
# Outlines

The outline of a subtree lists its views in layout order, each behind its
parent and in front of its own children, with the depth below the root. Written
out, it has a line for each view, two blanks deeper for each level.
-/

namespace ViewHost

namespace Tree

variable {α : Type} [Scalar α]

/-- The views at and below a node that stands at `level`. The budget bounds the
depth of the subtree. -/
def outlineAt (t : Tree α) : Nat → Nat → Handle → Except Fault (List (Nat × View α))
  | 0, _, _ => .error .endless
  | depth + 1, level, h => do
    let n ← t.node h
    let below ← n.children.mapM (t.outlineAt depth (level + 1))
    return (level, n.view) :: below.flatten

/-- The views at and below `root` with their levels. -/
def outline (t : Tree α) (root : Tag) : List (Nat × View α) :=
  match t.handle? root with
  | some h => intact [] (t.outlineAt t.size 0 h)
  | none => []

end Tree

namespace View

/-- A view in one line: tag, kind, frame, and every setting that is not as it
was when the view was created. -/
def summary (v : View Float32) : String :=
  let num (x : Float32) := Decimal.floatText x .plain
  v.tag.text ++ " " ++ v.kind.name ++
    " [" ++ num v.frame.x ++ ", " ++ num v.frame.y ++ ", " ++
      num v.frame.w ++ "x" ++ num v.frame.h ++ "]" ++
    (if v.z = 0 then "" else " z=" ++ toString v.z) ++
    (if v.clips then " clip" else "") ++
    (if v.hidden then " hidden" else "") ++
    (if v.pointerEvents = .auto then "" else " pointer-events=" ++ v.pointerEvents.name) ++
    (if v.hitSlop.isZero then "" else " slop") ++
    (if v.transform.isIdentity then "" else " transformed")

/-- The line of a view at a level. -/
def outlineLine (level : Nat) (v : View Float32) : String :=
  String.ofList (List.replicate (2 * level) ' ') ++ v.summary ++ "\n"

end View

namespace Tree

/-- The outline of a subtree, written out. -/
def dump (t : Tree Float32) (root : Tag) : String :=
  if t.contains root then
    String.join ((t.outline root).map fun (level, v) => v.outlineLine level)
  else root.text ++ " (missing)\n"

end Tree

end ViewHost
