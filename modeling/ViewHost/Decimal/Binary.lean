/-!
# Binary fractions

A finite float is a whole number times a power of two. Writing it as a decimal
starts from these two numbers and computes in whole numbers from there on.
-/

namespace ViewHost

/-- The number `± mantissa * 2 ^ exponent`, as a float holds it. -/
structure BinaryFraction where
  negative : Bool
  mantissa : Nat
  exponent : Int
  /-- The next smaller float is only half as far away as the next larger. -/
  atBinade : Bool
  deriving DecidableEq, Repr

namespace BinaryFraction

/-- The value of a float that is neither infinite nor undefined. -/
def ofFloat32? (x : Float32) : Option BinaryFraction :=
  let bits := x.toBits.toNat
  let field : Nat := (bits >>> 23) % 256
  let fraction := bits % (1 <<< 23)
  let negative := bits >>> 31 == 1
  if field = 255 then none
  else if field = 0 then some ⟨negative, fraction, -149, false⟩
  else some ⟨negative, (1 <<< 23) + fraction, (field : Int) - 150, fraction == 0 && field > 1⟩

/-- The nearest whole number to the magnitude; a half goes to the even one. -/
def roundEven (b : BinaryFraction) : Nat :=
  if 0 ≤ b.exponent then b.mantissa <<< b.exponent.toNat
  else
    let unit := 1 <<< (-b.exponent).toNat
    let whole := b.mantissa / unit
    let rest := b.mantissa % unit
    if 2 * rest < unit then whole
    else if unit < 2 * rest then whole + 1
    else whole + whole % 2

end BinaryFraction

end ViewHost
