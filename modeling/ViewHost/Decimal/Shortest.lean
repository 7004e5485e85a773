import ViewHost.Decimal.Basic
import ViewHost.Decimal.Binary

/-!
# The shortest decimal of a float

A float stands for all reals that round to it. Of the decimals among these, the
one with the fewest digits is written, and of several the one nearest to the
float.
-/

namespace ViewHost

namespace BinaryFraction

/-- The ends and the middle of the interval that rounds to a number, all over
one denominator. -/
structure Interval where
  low : Nat
  value : Nat
  high : Nat
  denominator : Nat
  /-- The ends round to the number too. -/
  closed : Bool
  deriving DecidableEq, Repr

/-- The reals that round to a positive number. -/
def interval (b : BinaryFraction) : Interval :=
  let e := b.exponent - 2
  let up := 1 <<< e.toNat
  { low := (4 * b.mantissa - (if b.atBinade then 1 else 2)) * up
    value := 4 * b.mantissa * up
    high := (4 * b.mantissa + 2) * up
    denominator := 1 <<< (-e).toNat
    closed := b.mantissa % 2 == 0 }

namespace Interval

/-- Whether `n / d` lies in the interval. -/
def holds (i : Interval) (n d : Nat) : Bool :=
  let lo := i.low * d
  let x := n * i.denominator
  let hi := i.high * d
  if i.closed then lo ≤ x && x ≤ hi else lo < x && x < hi

/-- The place of the first digit of the value, counted from one before the
point: the value is below `10 ^ place` and not below a tenth of that. -/
def place (i : Interval) : Int :=
  if i.denominator ≤ i.value then ((toString (i.value / i.denominator)).length : Int)
  else
    match (List.range 400).find? fun j => i.denominator ≤ i.value * Nat.pow 10 (j + 1) with
    | some j => -(j : Int)
    | none => 0

/-- The multiple of `10 ^ e` in the interval that is nearest to the value, the
even one of two that are equally near. -/
def onGrid? (i : Interval) (e : Int) : Option Nat :=
  let num := Nat.pow 10 e.toNat
  let den := Nat.pow 10 (-e).toNat
  -- in grid units the value is `v / u`
  let v := i.value * den
  let u := i.denominator * num
  let below := v / u
  let inside (c : Nat) : Bool := i.holds (c * num) den
  let upper := u < 2 * (v % u) || (2 * (v % u) == u && below % 2 == 1)
  match inside below, inside (below + 1) with
  | true, true => some (if upper then below + 1 else below)
  | true, false => some below
  | false, true => some (below + 1)
  | false, false => none

/-- The shortest decimal in the interval; `digits` digits are always enough. -/
def shortest (i : Interval) (digits : Nat) : Nat × Int :=
  let top := i.place
  let attempt (n : Nat) : Option (Nat × Int) :=
    let e := top - n - 1
    (i.onGrid? e).map fun c => (c, e)
  ((List.range digits).findSome? attempt).getD (0, 0)

end Interval

/-- The shortest decimal that rounds to a number. -/
def shortest (b : BinaryFraction) (digits : Nat) : Decimal :=
  if b.mantissa = 0 then ⟨b.negative, 0, 0⟩
  else
    let (c, e) := b.interval.shortest digits
    ⟨b.negative, c, e⟩

end BinaryFraction

namespace Decimal

/-- The shortest decimal of a finite float. Nine digits tell any two floats of
single precision apart. -/
def ofFloat32? (x : Float32) : Option Decimal :=
  (BinaryFraction.ofFloat32? x).map (·.shortest 9)

/-- The text of a float; infinities and undefined numbers are words. -/
def floatText (x : Float32) (l : Layout) : String :=
  match ofFloat32? x with
  | some d => d.text l
  | none => if x.isNaN then "NaN" else if x < 0 then "-inf" else "inf"

/-- The text of a float rounded to a whole number, a half to the even one. -/
def wholeText (x : Float32) : String :=
  match BinaryFraction.ofFloat32? x with
  | some b => (if b.negative then "-" else "") ++ toString b.roundEven
  | none => floatText x .plain

end Decimal

end ViewHost
