/-!
# Lengths of time

Time is counted in whole nanoseconds. A length of time stays below 2⁶⁴ seconds;
an operation that would leave this range says so instead of wrapping around.
-/

namespace ViewHost

/-- A length of time. -/
structure Duration where
  nanos : Nat
  nanos_lt : nanos < (1 <<< 64) * 1000000000
  deriving DecidableEq

/-- A point in time, as the length of time since the host's epoch. -/
abbrev Timestamp := Duration

namespace Duration

def nanosPerSec : Nat := 1000000000

/-- The given number of nanoseconds, if it is in range. -/
def ofNanos? (n : Nat) : Option Duration :=
  if h : n < (1 <<< 64) * 1000000000 then some ⟨n, h⟩ else none

/-- The given seconds and nanoseconds together, if they are in range. A second
or more of nanoseconds carries over. -/
def ofParts? (secs nanos : Nat) : Option Duration := ofNanos? (secs * nanosPerSec + nanos)

def zero : Duration := ⟨0, by decide⟩

instance : Inhabited Duration := ⟨zero⟩

def ofMicros (n : UInt64) : Duration :=
  ⟨n.toNat * 1000, by have := n.toNat_lt; omega⟩

def ofMillis (n : UInt32) : Duration :=
  ⟨n.toNat * 1000000, by have := n.toNat_lt; omega⟩

/-- One second. -/
def second : Duration := ⟨1000000000, by decide⟩

/-- Whole seconds. -/
def secs (d : Duration) : Nat := d.nanos / nanosPerSec

/-- What is left beyond whole seconds, in nanoseconds. -/
def subsecNanos (d : Duration) : Nat := d.nanos % nanosPerSec

instance : LE Duration := ⟨fun a b => a.nanos ≤ b.nanos⟩

instance : LT Duration := ⟨fun a b => a.nanos < b.nanos⟩

instance (a b : Duration) : Decidable (a ≤ b) := inferInstanceAs (Decidable (a.nanos ≤ b.nanos))

instance (a b : Duration) : Decidable (a < b) := inferInstanceAs (Decidable (a.nanos < b.nanos))

/-- The sum, if it is in range. -/
def add? (a b : Duration) : Option Duration := ofNanos? (a.nanos + b.nanos)

/-- The difference, or zero if the second is longer. -/
def monus (a b : Duration) : Duration :=
  ⟨a.nanos - b.nanos, by have := a.nanos_lt; omega⟩

/-- The length in seconds: whole seconds and the rest are rounded on their own
and then added. -/
def toSeconds (d : Duration) : Float32 :=
  d.secs.toUInt64.toFloat32 + d.subsecNanos.toUInt64.toFloat32 / 1000000000

/-- `whole` and `part` out of `10 ^ places`, as a decimal without trailing
zeros. -/
def decimalText (whole part places : Nat) : String :=
  let digits := (toString (Nat.pow 10 places + part)).toList.drop 1
  let kept := (digits.reverse.dropWhile (· == '0')).reverse
  toString whole ++ (if kept.isEmpty then "" else "." ++ String.ofList kept)

/-- The length in the largest unit that it reaches, with every digit that is
not a trailing zero. -/
def text (d : Duration) : String :=
  if d.secs > 0 then decimalText d.secs d.subsecNanos 9 ++ "s"
  else if d.nanos ≥ 1000000 then decimalText (d.nanos / 1000000) (d.nanos % 1000000) 6 ++ "ms"
  else if d.nanos ≥ 1000 then decimalText (d.nanos / 1000) (d.nanos % 1000) 3 ++ "µs"
  else toString d.nanos ++ "ns"

end Duration

end ViewHost
