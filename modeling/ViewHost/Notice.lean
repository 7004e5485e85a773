import ViewHost.Input.Pointer

/-!
# Notices

What the library warns about. None of these conditions stops anything: the
event in question is dropped or the state is put right.
-/

namespace ViewHost

inductive Notice where
  /-- A contact went down that was down already. -/
  | downTwice (pointer : PointerId)
  | moveUnknown (pointer : PointerId)
  | upUnknown (pointer : PointerId)
  /-- All touch identifiers have been issued once. -/
  | identifiersExhausted
  /-- The consumer of the outbound queue has fallen behind. -/
  | backlog (items threshold : Nat)
  deriving DecidableEq, Repr

namespace Notice

/-- Whether the condition is an error and not just a warning. -/
def isError : Notice → Bool
  | identifiersExhausted => true
  | _ => false

def message : Notice → String
  | downTwice p => s!"touch: pointer {p.text} went down twice; cancelling the stale contact"
  | moveUnknown p => s!"touch: move for unknown pointer {p.text} ignored"
  | upUnknown p => s!"touch: up for unknown pointer {p.text} ignored"
  | identifiersExhausted => "touch: identifier space exhausted; wrapping around"
  | backlog n w => s!"delivery: consumer is {n} items behind (warning threshold {w})"

def text (n : Notice) : String := (if n.isError then "error: " else "warn: ") ++ n.message

end Notice

end ViewHost
