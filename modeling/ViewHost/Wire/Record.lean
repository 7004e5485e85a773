import ViewHost.Decimal.Shortest
import ViewHost.Json.Basic

/-!
# Records and variants

Records travel as objects, whose members stand in any order and may be joined by
members of other names, or as arrays of their fields in order. A value of a type
with alternatives is the name of one, or an object whose only member has that
name and holds what the alternative carries.
-/

namespace ViewHost.Wire

variable {β : Type}

/-- The fields of a record that are given, by name. -/
structure Record where
  fields : List (String × Json)
  /-- The names of all members, those of no field included. -/
  names : List String

namespace Record

/-- The record with the given field names. A field that is given twice makes it
invalid, and so does an array with more items than there are fields. -/
def ofJson? (names : List String) : Json → Option Record
  | .arr items =>
    if items.length ≤ names.length then some ⟨names.zip items, names⟩ else none
  | .obj members => do
    let members ← members.mapM fun (k, v) => k.map fun k => (k, v)
    let known := members.filter fun (k, _) => names.contains k
    if known.length = (known.map (·.1)).eraseDups.length then
      some ⟨known, members.map (·.1)⟩
    else none
  | _ => none

/-- A field that has to be there. -/
def get? (r : Record) (name : String) (read : Json → Option β) : Option β :=
  (r.fields.lookup name).bind read

/-- A field with a value to fall back on. It is invalid if it is there but
cannot be read. -/
def getD? (r : Record) (name : String) (read : Json → Option β) (fallback : β) : Option β :=
  match r.fields.lookup name with
  | some j => read j
  | none => some fallback

end Record

/-- The name of an alternative and what it carries. -/
def variant? : Json → Option (String × Option Json)
  | .str (some name) => some (name, none)
  | .obj [(some name, j)] => some (name, some j)
  | _ => none

/-- An alternative that carries nothing, by its name. -/
def unit? (ofName? : String → Option β) (j : Json) : Option β := do
  match ← variant? j with
  | (name, none) | (name, some .null) => ofName? name
  | _ => none

/-- Exactly as many items as the readers take. -/
def items? (n : Nat) (read : Json → Option β) (j : Json) : Option (List β) := do
  let items ← j.arr?
  if items.length = n then items.mapM read else none

/-- A number in single precision. Whole numbers of machine size are rounded once
and all others first to a double, whose range they must not leave. -/
def float? : Json → Option Float32
  | .num n =>
    let wide : Option Float32 :=
      let x := n.toFloat
      if x.isFinite then some x.toFloat32 else none
    match n with
    | .whole false m => if m < UInt64.size then some m.toUInt64.toFloat32 else wide
    | .whole true m => if m ≤ UInt64.size / 2 then some (-m.toUInt64.toFloat32) else wide
    | .decimal _ => wide
  | _ => none

/-- A number in single precision; one that is infinite or undefined is `null`. -/
def ofFloat (x : Float32) : Json :=
  match Decimal.ofFloat32? x with
  | some d => .num (.decimal d)
  | none => .null

end ViewHost.Wire
