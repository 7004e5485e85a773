/-!
# Coordinates

Every length, position and matrix entry of the library has one type `α`, and
the only thing asked of it is the class below. Two readings are used: single
precision floats, which is what a running host computes with, and exact
rationals, in which the geometry obeys its textbook laws without rounding.

The tests answer `Bool`, because on floats they are not the tests of an order:
nothing compares with an undefined number.
-/

namespace ViewHost

/-- The arithmetic that geometry needs. -/
class Scalar (α : Type) extends Add α, Sub α, Mul α, Div α, Neg α, Zero α, One α where
  half : α
  lt : α → α → Bool
  le : α → α → Bool
  eq : α → α → Bool
  /-- Whether the number can be divided by, overflow and undefined values
  excluded. -/
  isFinite : α → Bool
  abs : α → α
  /-- A matrix whose determinant is at most this far from zero has no inverse. -/
  singular : α
  /-- The smallest of some numbers, undefined ones left out. -/
  least : List α → α
  /-- The largest of some numbers, undefined ones left out. -/
  greatest : List α → α
  /-- Zero in place of a negative or undefined number. -/
  clampNeg : α → α
  /-- Whether the square root of the first number is above the second. -/
  rootExceeds : α → α → Bool

namespace Scalar

/-- The square of a number. -/
def sq {α : Type} [Scalar α] (x : α) : α := x * x

end Scalar

/-- Single precision. The extreme of no numbers at all is the infinity from
which the search starts. -/
instance : Scalar Float32 where
  zero := 0
  one := 1
  half := 0.5
  lt a b := a < b
  le a b := a ≤ b
  eq a b := a == b
  isFinite x := x.isFinite
  abs x := x.abs
  singular := Float32.ofBits 0x34000000 * 1e-3
  least xs := xs.foldl (fun m x => if x < m then x else m) (Float32.ofBits 0x7f800000)
  greatest xs := xs.foldl (fun m x => if m < x then x else m) (Float32.ofBits 0xff800000)
  clampNeg x := if 0 < x then x else 0
  rootExceeds s d := d < s.sqrt

/-- Exact arithmetic. A root exceeds `d` iff `d` is negative or `d` squared is
below the radicand, so no root has to be taken. -/
instance : Scalar Rat where
  zero := 0
  one := 1
  half := 1 / 2
  lt a b := decide (a < b)
  le a b := decide (a ≤ b)
  eq a b := decide (a = b)
  isFinite _ := true
  abs x := if x < 0 then -x else x
  singular := 1 / (8388608 * 1000)
  least
    | [] => 0
    | x :: xs => xs.foldl (fun m y => if y < m then y else m) x
  greatest
    | [] => 0
    | x :: xs => xs.foldl (fun m y => if m < y then y else m) x
  clampNeg x := if 0 < x then x else 0
  rootExceeds s d := decide (d < 0) || decide (d * d < s)

end ViewHost
