import ViewHost.Input.Pointer
import ViewHost.Tree.Command
import ViewHost.Wire.Record

/-!
# Commands on the wire

How the layout engine sends commands, and how the values in them travel.
-/

namespace ViewHost.Wire

def tag? (j : Json) : Option Tag := j.uint64?.map Tag.mk

def ofTag (t : Tag) : Json := .ofNat t.val.toNat

def kind? (j : Json) : Option ViewKind :=
  match variant? j with
  | some ("Custom", some (.str (some name))) => some (.custom name)
  | some ("Custom", _) => none
  | _ => unit? ViewKind.ofName? j

def ofKind : ViewKind → Json
  | .custom name => .object [("Custom", .text name)]
  | k => .text k.name

def cancelReason? (j : Json) : Option CancelReason := do
  match ← variant? j with
  | ("FocusLost", none) | ("FocusLost", some .null) => some .focusLost
  | ("System", none) | ("System", some .null) => some .system
  | ("Contact", some p) => p.uint64?.map fun n => .contact ⟨n⟩
  | ("Root", some t) => (tag? t).map .root
  | _ => none

def ofCancelReason : CancelReason → Json
  | .focusLost => .text "FocusLost"
  | .system => .text "System"
  | .contact p => .object [("Contact", .ofNat p.val.toNat)]
  | .root t => .object [("Root", ofTag t)]

def rect? (j : Json) : Option (Rect Float32) := do
  let r ← Record.ofJson? ["x", "y", "w", "h"] j
  return ⟨← r.get? "x" float?, ← r.get? "y" float?, ← r.get? "w" float?, ← r.get? "h" float?⟩

def ofRect (r : Rect Float32) : Json :=
  .object [("x", ofFloat r.x), ("y", ofFloat r.y), ("w", ofFloat r.w), ("h", ofFloat r.h)]

def insets? (j : Json) : Option (Insets Float32) := do
  let r ← Record.ofJson? ["top", "left", "bottom", "right"] j
  return ⟨← r.get? "top" float?, ← r.get? "left" float?, ← r.get? "bottom" float?,
    ← r.get? "right" float?⟩

def ofInsets (i : Insets Float32) : Json :=
  .object [("top", ofFloat i.top), ("left", ofFloat i.left), ("bottom", ofFloat i.bottom),
    ("right", ofFloat i.right)]

def transform? (j : Json) : Option (Transform Float32) := do
  let r ← Record.ofJson? ["m"] j
  let rows ← r.get? "m" (items? 3 (items? 3 float?))
  Transform.ofList? rows.flatten

def ofTransform (t : Transform Float32) : Json :=
  .object [("m", .arr [
    .arr [ofFloat t.a00, ofFloat t.a01, ofFloat t.a02],
    .arr [ofFloat t.a10, ofFloat t.a11, ofFloat t.a12],
    .arr [ofFloat t.a20, ofFloat t.a21, ofFloat t.a22]])]

/-- A whole number of 32 bits. -/
def int32? (j : Json) : Option Int := j.int?.filter fun n => -2147483648 ≤ n && n < 2147483648

def index? (j : Json) : Option Nat := j.natBelow? UInt64.size

/-- A command that sets one thing about a view. -/
def setting? {β : Type} (name : String) (read : Json → Option β)
    (make : Tag → β → Command Float32) (j : Json) : Option (Command Float32) := do
  let r ← Record.ofJson? ["tag", name] j
  return make (← r.get? "tag" tag?) (← r.get? name read)

def command? (j : Json) : Option (Command Float32) := do
  let (name, payload) ← variant? j
  let j ← payload
  match name with
  | "Create" => setting? "kind" kind? .create j
  | "Insert" => do
    let r ← Record.ofJson? ["tag", "parent", "index"] j
    return .insert (← r.get? "tag" tag?) (← r.get? "parent" tag?) (← r.get? "index" index?)
  | "Remove" => (tag? j).map .remove
  | "Detach" => (tag? j).map .detach
  | "SetFrame" => setting? "frame" rect? .setFrame j
  | "SetTransform" => setting? "transform" transform? .setTransform j
  | "SetZIndex" => setting? "z" int32? .setZ j
  | "SetClip" => setting? "clips" Json.bool? .setClip j
  | "SetHidden" => setting? "hidden" Json.bool? .setHidden j
  | "SetPointerEvents" => setting? "mode" (unit? PointerEvents.ofName?) .setPointerEvents j
  | "SetHitSlop" => setting? "insets" insets? .setHitSlop j
  | "SetCursor" => setting? "cursor" (unit? Cursor.ofName?) .setCursor j
  | _ => none

/-- The object of a command that sets one thing about a view. -/
def ofSetting (command : String) (t : Tag) (name : String) (value : Json) : Json :=
  .object [(command, .object [("tag", ofTag t), (name, value)])]

def ofCommand : Command Float32 → Json
  | .create t kind => ofSetting "Create" t "kind" (ofKind kind)
  | .insert t parent index =>
    .object [("Insert",
      .object [("tag", ofTag t), ("parent", ofTag parent), ("index", .ofNat index)])]
  | .remove t => .object [("Remove", ofTag t)]
  | .detach t => .object [("Detach", ofTag t)]
  | .setFrame t frame => ofSetting "SetFrame" t "frame" (ofRect frame)
  | .setTransform t m => ofSetting "SetTransform" t "transform" (ofTransform m)
  | .setZ t z => ofSetting "SetZIndex" t "z" (.ofInt z)
  | .setClip t clips => ofSetting "SetClip" t "clips" (.bool clips)
  | .setHidden t hidden => ofSetting "SetHidden" t "hidden" (.bool hidden)
  | .setPointerEvents t mode => ofSetting "SetPointerEvents" t "mode" (.text mode.name)
  | .setHitSlop t insets => ofSetting "SetHitSlop" t "insets" (ofInsets insets)
  | .setCursor t cursor => ofSetting "SetCursor" t "cursor" (.text cursor.name)

end ViewHost.Wire
