import ViewHost.Input.Key
import ViewHost.Input.Pointer

/-!
# Input events

What a platform hands to a host.
-/

namespace ViewHost

variable {α : Type}

/-- An input event. -/
inductive InputEvent (α : Type) where
  | pointer (e : PointerEvent α)
  | key (e : KeyEvent)

namespace InputEvent

def timestamp : InputEvent α → Timestamp
  | pointer e => e.timestamp
  | key e => e.timestamp

end InputEvent

end ViewHost
