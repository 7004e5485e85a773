/-!
# Decimals

A decimal is a whole number times a power of ten, and a layout says how it is
written out.
-/

namespace ViewHost

/-- The number `± coefficient * 10 ^ exponent`. -/
structure Decimal where
  negative : Bool
  coefficient : Nat
  exponent : Int
  deriving DecidableEq, Repr

/-- How decimals are written. -/
structure Layout where
  /-- The place of the first digit may be this low without an exponent being
  written; no bound means that none ever is. -/
  lowest : Option Int
  /-- The place of the first digit may be this high. -/
  highest : Option Int
  /-- Whole numbers end in `.0`. -/
  pointed : Bool
  /-- An exponent that is not negative has a sign. -/
  signed : Bool
  deriving DecidableEq, Repr

namespace Layout

/-- Every digit is written, and a point only before a fraction. -/
def plain : Layout := ⟨none, none, false, false⟩

end Layout

namespace Decimal

/-- Drops the zeros at the end of the coefficient, at most `n` of them. -/
def strip : Nat → Nat → Int → Nat × Int
  | 0, c, e => (c, e)
  | n + 1, c, e => if c ≠ 0 ∧ c % 10 = 0 then strip n (c / 10) (e + 1) else (c, e)

/-- The same number with no zero at the end of its coefficient. -/
def normalize (d : Decimal) : Decimal :=
  if d.coefficient = 0 then { d with exponent := 0 }
  else
    let (c, e) := strip (toString d.coefficient).length d.coefficient d.exponent
    { d with coefficient := c, exponent := e }

def zeros (n : Nat) : String := String.ofList (List.replicate n '0')

/-- Digits with a point behind the first `n` of them. -/
def pointAfter (digits : String) (n : Nat) : String :=
  String.ofList (digits.toList.take n) ++ "." ++ String.ofList (digits.toList.drop n)

/-- The digits in place, without an exponent. -/
def positional (digits : String) (exponent : Int) (pointed : Bool) : String :=
  if 0 ≤ exponent then
    digits ++ zeros exponent.toNat ++ (if pointed then ".0" else "")
  else
    let behind := (-exponent).toNat
    if behind < digits.length then pointAfter digits (digits.length - behind)
    else "0." ++ zeros (behind - digits.length) ++ digits

/-- The first digit, the others behind a point, and the exponent. -/
def scientific (digits : String) (place : Int) (signed : Bool) : String :=
  (if digits.length = 1 then digits else pointAfter digits 1) ++ "e" ++
    (if 0 ≤ place then (if signed then "+" else "") else "-") ++ toString place.natAbs

/-- The text of a decimal in a layout. -/
def text (d : Decimal) (l : Layout) : String :=
  let d := d.normalize
  let digits := toString d.coefficient
  let place := d.exponent + digits.length - 1
  let inPlace := d.coefficient = 0 ||
    (l.lowest.all (· ≤ place) && l.highest.all (place ≤ ·))
  (if d.negative then "-" else "") ++
    if inPlace then positional digits d.exponent l.pointed
    else scientific digits place l.signed

/-- The nearest double. Beyond four hundred places nothing but infinity and
zero is left. -/
def toFloat (d : Decimal) : Float :=
  let place := d.exponent + (toString d.coefficient).length
  let magnitude : Float :=
    if d.coefficient = 0 || place < -400 then 0
    else if 400 < place then Float.ofScientific 1 false 400
    else if 0 ≤ d.exponent then Float.ofScientific d.coefficient false d.exponent.toNat
    else Float.ofScientific d.coefficient true (-d.exponent).toNat
  if d.negative then -magnitude else magnitude

end Decimal

end ViewHost
