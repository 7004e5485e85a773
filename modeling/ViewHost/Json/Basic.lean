import ViewHost.Decimal.Basic

/-!
# JSON values

Objects keep the order and the repetitions of their members, and numbers keep
whether they were written as whole numbers: readers of particular types decide
what to make of either.
-/

namespace ViewHost

/-- A number as it is written. -/
inductive Numeral where
  /-- Digits alone, behind an optional minus sign. -/
  | whole (negative : Bool) (magnitude : Nat)
  /-- With a fraction or an exponent. -/
  | decimal (d : Decimal)
  deriving DecidableEq, Repr

/-- A JSON value. A string in which half of a surrogate pair is escaped on its
own has no text. -/
inductive Json where
  | null
  | bool (b : Bool)
  | num (n : Numeral)
  | str (text : Option String)
  | arr (items : List Json)
  | obj (members : List (Option String × Json))
  deriving Inhabited, Repr

namespace Numeral

/-- The number as a decimal. -/
def toDecimal : Numeral → Decimal
  | whole negative magnitude => ⟨negative, magnitude, 0⟩
  | decimal d => d

/-- The nearest double. -/
def toFloat (n : Numeral) : Float := n.toDecimal.toFloat

end Numeral

namespace Json

def text (s : String) : Json := .str (some s)

def ofNat (n : Nat) : Json := .num (.whole false n)

def ofInt (i : Int) : Json := .num (.whole (i < 0) i.natAbs)

/-- The object with the given members. -/
def object (members : List (String × Json)) : Json :=
  .obj (members.map fun (k, v) => (some k, v))

/-- The first member of an object with a name. -/
def get? (j : Json) (name : String) : Option Json :=
  match j with
  | .obj members => (members.find? (·.1 == some name)).map (·.2)
  | _ => none

def bool? : Json → Option Bool
  | .bool b => some b
  | _ => none

def str? : Json → Option String
  | .str s => s
  | _ => none

def arr? : Json → Option (List Json)
  | .arr items => some items
  | _ => none

/-- A whole number that is not negative. Minus zero is not one of them. -/
def nat? : Json → Option Nat
  | .num (.whole false n) => some n
  | _ => none

/-- A whole number. Minus zero is not one of them. -/
def int? : Json → Option Int
  | .num (.whole false n) => some n
  | .num (.whole true n) => if n = 0 then none else some (-n)
  | _ => none

/-- A whole number below `bound`. -/
def natBelow? (bound : Nat) (j : Json) : Option Nat := j.nat?.filter (· < bound)

def uint64? (j : Json) : Option UInt64 := (j.natBelow? UInt64.size).map Nat.toUInt64

end Json

end ViewHost
