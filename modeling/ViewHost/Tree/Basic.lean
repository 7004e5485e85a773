import Std.Data.ExtTreeMap
import ViewHost.View.Basic

/-!
# The view tree

Views live in a store and are linked by handles that never leave the tree: the
outside knows a view by its tag alone and finds it, or finds it gone, through
the tag table. A node keeps its parent, its children in layout order, and the
same children in paint order, which is the layout order sorted by z with ties
left as they are.

Every step along a link is checked. A link to a handle that is not in the
store, or an upward walk that outlasts the store, is a `Fault`. No sequence of
the operations below leads to a tree in which one occurs.
-/

namespace ViewHost

variable {α : Type} [Scalar α]

/-- The place of a node in the store, which is taken to issue each handle once:
no node ever gets a handle that another has or has had. Here they are issued in
order. -/
structure Handle where
  index : Nat
  deriving DecidableEq, Inhabited, Repr

instance : Ord Handle := ⟨compareOn Handle.index⟩

instance : Std.TransOrd Handle := inferInstanceAs (Std.TransCmp (compareOn Handle.index))

instance : Std.LawfulEqOrd Handle where
  eq_of_compare {a b} h := by
    have : a.index = b.index := Std.LawfulEqOrd.eq_of_compare (α := Nat) h
    cases a; cases b; simp_all

/-- A view and its links. -/
structure Node (α : Type) where
  view : View α
  parent : Option Handle
  /-- In layout order. -/
  children : List Handle
  /-- The children in paint order, bottom first. -/
  paintOrder : List Handle

/-- What would be wrong with a tree whose links are broken. -/
inductive Fault where
  | dangling (h : Handle)
  | endless
  deriving DecidableEq, Repr

/-- Why an operation that names views is refused. -/
inductive TreeError where
  | unknown (tag : Tag)
  | duplicate (tag : Tag)
  /-- The parent is the view itself or lies below it. -/
  | cycle (tag parent : Tag)
  | notInside (tag root : Tag)
  | singular (tag : Tag)
  deriving DecidableEq, Repr

namespace TreeError

def message : TreeError → String
  | unknown t => s!"no view with tag {t.text}"
  | duplicate t => s!"a view with tag {t.text} already exists"
  | cycle t p => s!"inserting {t.text} under {p.text} would make it its own ancestor"
  | notInside t r => s!"view {t.text} is not inside root {r.text}"
  | singular t => s!"transform of view {t.text} is not invertible"

end TreeError

/-- A forest of views. -/
structure Tree (α : Type) where
  nodes : Std.ExtTreeMap Handle (Node α)
  handles : Std.ExtTreeMap Tag Handle
  /-- Every handle issued so far has a smaller index. -/
  issued : Nat

namespace Tree

def empty : Tree α := ⟨∅, ∅, 0⟩

/-- The number of views. -/
def size (t : Tree α) : Nat := t.nodes.size

def isEmpty (t : Tree α) : Bool := t.nodes.isEmpty

def handle? (t : Tree α) (tag : Tag) : Option Handle := t.handles[tag]?

def contains (t : Tree α) (tag : Tag) : Bool := t.handles.contains tag

/-- The node at a handle, which has to be in the store. -/
def node (t : Tree α) (h : Handle) : Except Fault (Node α) :=
  match t.nodes[h]? with
  | some n => .ok n
  | none => .error (.dangling h)

def node? (t : Tree α) (tag : Tag) : Option (Node α) := do
  t.nodes[← t.handle? tag]?

/-- The view with a tag. -/
def view? (t : Tree α) (tag : Tag) : Option (View α) := (t.node? tag).map (·.view)

/-- The tag of the node at a handle. -/
def tagAt (t : Tree α) (h : Handle) : Except Fault Tag := do
  return (← t.node h).view.tag

/-- The result of a walk, or `d` in its place if the links are broken. -/
def intact {β : Type} (d : β) : Except Fault β → β
  | .ok b => b
  | .error _ => d

def parent? (t : Tree α) (tag : Tag) : Option Tag := do
  let p ← (← t.node? tag).parent
  intact none ((t.tagAt p).map some)

/-- Children in layout order. -/
def children (t : Tree α) (tag : Tag) : List Tag :=
  match t.node? tag with
  | some n => intact [] (n.children.mapM t.tagAt)
  | none => []

/-- Children in paint order, bottom first. -/
def paintedChildren (t : Tree α) (tag : Tag) : List Tag :=
  match t.node? tag with
  | some n => intact [] (n.paintOrder.mapM t.tagAt)
  | none => []

/-! ## Walking up -/

/-- The nodes passed on the way up from a node, and whether the way led to the
node it was meant to end at. That last node is not among those passed. -/
structure Ascent (α : Type) where
  passed : List (Node α)
  arrived : Bool

/-- Follows parent links from `h` until `stop`, or to the top of the tree if
`stop` is not above `h`. -/
def climb (t : Tree α) (stop : Handle) (steps : Nat) (h : Handle) : Except Fault (Ascent α) :=
  if h = stop then .ok ⟨[], true⟩
  else
    match steps with
    | 0 => .error .endless
    | steps + 1 => do
      let n ← t.node h
      match n.parent with
      | none => return ⟨[n], false⟩
      | some p =>
        let rest ← t.climb stop steps p
        return ⟨n :: rest.passed, rest.arrived⟩

/-! ## Changing links -/

def put (t : Tree α) (h : Handle) (n : Node α) : Tree α :=
  { t with nodes := t.nodes.insert h n }

/-- Takes a node off its parent, if it has one. -/
def unlink (t : Tree α) (h : Handle) : Except Fault (Bool × Tree α) := do
  let n ← t.node h
  match n.parent with
  | none => return (false, t)
  | some p =>
    let t := t.put h { n with parent := none }
    let q ← t.node p
    return (true, t.put p { q with
      children := q.children.filter (· ≠ h)
      paintOrder := q.paintOrder.filter (· ≠ h) })

/-- Handles in ascending order of their z, those of equal z as they were. -/
def byZ (zs : List (Handle × Int)) : List Handle :=
  (zs.mergeSort fun a b => a.2 ≤ b.2).map (·.1)

/-- Derives the paint order of a node's children anew. -/
def repaint (t : Tree α) (h : Handle) : Except Fault (Tree α) := do
  let n ← t.node h
  let zs ← n.children.mapM fun c => return (c, (← t.node c).view.z)
  return t.put h { n with paintOrder := byZ zs }

/-- Hangs a parentless node under `p`, in front of the child at `index` or
behind all of them. -/
def link (t : Tree α) (h p : Handle) (index : Nat) : Except Fault (Tree α) := do
  let q ← t.node p
  let t := t.put p { q with children := q.children.take index ++ h :: q.children.drop index }
  let n ← t.node h
  (t.put h { n with parent := some p }).repaint p

/-- A new view without parent or children. -/
def create (t : Tree α) (tag : Tag) (kind : ViewKind) : Except TreeError (Tree α) :=
  if t.contains tag then .error (.duplicate tag)
  else
    let h : Handle := ⟨t.issued⟩
    .ok {
      nodes := t.nodes.insert h ⟨.new tag kind, none, [], []⟩
      handles := t.handles.insert tag h
      issued := t.issued + 1 }

/-- Moves the node `h` under `p`; `none` if `p` is `h` or lies below it. -/
def move? (t : Tree α) (h p : Handle) (index : Nat) : Except Fault (Option (Tree α)) := do
  let up ← t.climb h t.size p
  if up.arrived then return none
  let (_, t) ← t.unlink h
  return some (← t.link h p index)

/-- Puts a view among the children of `parent`, where it comes to stand at
`index` or, if there are fewer others, last. It leaves its old parent first, so
the index counts the others only. -/
def insert (t : Tree α) (tag parent : Tag) (index : Nat) : Except TreeError (Tree α) :=
  match t.handle? tag, t.handle? parent with
  | none, _ => .error (.unknown tag)
  | some _, none => .error (.unknown parent)
  | some h, some p =>
    match intact (some t) (t.move? h p index) with
    | some t' => .ok t'
    | none => .error (.cycle tag parent)

/-- Takes a view off its parent and keeps it, with all below it. The answer is
whether there was a parent to take it off. -/
def detach (t : Tree α) (tag : Tag) : Bool × Tree α :=
  match t.handle? tag with
  | some h => intact (false, t) (t.unlink h)
  | none => (false, t)

/-- Destroys the nodes on the list and all below them, and counts them. -/
def sweep (t : Tree α) (todo : List Handle) : Nat × Tree α :=
  match todo with
  | [] => (0, t)
  | h :: rest =>
    match _found : t.nodes[h]? with
    | none => t.sweep rest
    | some n =>
      let (count, t) := ({ t with
        nodes := t.nodes.erase h
        handles := t.handles.erase n.view.tag } : Tree α).sweep (n.children.reverse ++ rest)
      (count + 1, t)
termination_by (t.nodes.size, todo.length)
decreasing_by
  · exact Prod.Lex.right _ (by simp)
  · refine Prod.Lex.left _ _ ?_
    have hm : h ∈ t.nodes := by
      rw [Std.ExtTreeMap.mem_iff_isSome_getElem?, _found]; rfl
    have hne : t.nodes.size ≠ 0 := by
      intro h0
      have := Std.ExtTreeMap.eq_empty_iff_size_eq_zero.2 h0
      simp [this] at hm
    simp only [Std.ExtTreeMap.size_erase, Std.ExtTreeMap.contains_iff_mem, hm, if_true]
    omega

/-- Destroys a view and all below it, and counts them. -/
def remove (t : Tree α) (tag : Tag) : Nat × Tree α :=
  match t.handle? tag with
  | some h => (intact (false, t) (t.unlink h)).2.sweep [h]
  | none => (0, t)

/-- Changes a view's settings. The answer is whether there is such a view. -/
def update (t : Tree α) (tag : Tag) (f : View α → View α) : Bool × Tree α :=
  match t.handle? tag with
  | some h => (true, intact t do
      let n ← t.node h
      return t.put h { n with view := f n.view })
  | none => (false, t)

/-- Changes a view's z and, with it, its place in its parent's paint order. -/
def setZ (t : Tree α) (tag : Tag) (z : Int) : Bool × Tree α :=
  match t.handle? tag with
  | some h => (true, intact t do
      let n ← t.node h
      if n.view.z = z then return t
      let t := t.put h { n with view := { n.view with z := z } }
      match n.parent with
      | some p => t.repaint p
      | none => return t)
  | none => (false, t)

def setFrame (t : Tree α) (tag : Tag) (frame : Rect α) : Bool × Tree α :=
  t.update tag fun v => { v with frame := frame }

def setTransform (t : Tree α) (tag : Tag) (transform : Transform α) : Bool × Tree α :=
  t.update tag fun v => { v with transform := transform }

def setClips (t : Tree α) (tag : Tag) (clips : Bool) : Bool × Tree α :=
  t.update tag fun v => { v with clips := clips }

def setHidden (t : Tree α) (tag : Tag) (hidden : Bool) : Bool × Tree α :=
  t.update tag fun v => { v with hidden := hidden }

def setPointerEvents (t : Tree α) (tag : Tag) (mode : PointerEvents) : Bool × Tree α :=
  t.update tag fun v => { v with pointerEvents := mode }

def setHitSlop (t : Tree α) (tag : Tag) (slop : Insets α) : Bool × Tree α :=
  t.update tag fun v => { v with hitSlop := slop }

def setCursor (t : Tree α) (tag : Tag) (cursor : Cursor) : Bool × Tree α :=
  t.update tag fun v => { v with cursor := cursor }

end Tree

end ViewHost
