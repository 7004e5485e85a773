/-!
# Modifier keys

The modifier keys held during an event are a set of eight bits, of which the
top one has no name.
-/

namespace ViewHost

/-- A set of modifier keys. -/
structure Modifiers where
  bits : UInt8
  deriving DecidableEq, Inhabited, Repr

namespace Modifiers

def none : Modifiers := ⟨0⟩
def shift : Modifiers := ⟨0x01⟩
def control : Modifiers := ⟨0x02⟩
def alt : Modifiers := ⟨0x04⟩
/-- The command key, or the window key. -/
def command : Modifiers := ⟨0x08⟩
def capsLock : Modifiers := ⟨0x10⟩
def function : Modifiers := ⟨0x20⟩
def numericPad : Modifiers := ⟨0x40⟩

def union (a b : Modifiers) : Modifiers := ⟨a.bits ||| b.bits⟩

/-- The named keys in bit order. -/
def named : List (String × Modifiers) :=
  [("SHIFT", shift), ("CONTROL", control), ("ALT", alt), ("META", command),
    ("CAPS_LOCK", capsLock), ("FUNCTION", function), ("NUMERIC_PAD", numericPad)]

/-- The keys that take part in shortcuts. Locks and the like do not. -/
def forChord (m : Modifiers) : Modifiers := ⟨m.bits &&& 0x0f⟩

end Modifiers

end ViewHost
