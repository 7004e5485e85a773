import ViewHost.Shortcut.Chord

/-!
# The shortcut registry

At most one action is bound to a chord, and binding a chord again replaces its
action. One press can make two bound chords, one by its input and one by its
code; the one bound later counts. Observers hear of every key event.

The actions and observers themselves are values of a type `κ`, about which the
registry knows nothing. What they do when they are called is a matter of
`ViewHost.Control`.
-/

namespace ViewHost

variable {κ : Type}

/-- The name of a key observer. Each name is taken to be issued once, so that no
observer ever gets one that another has or has had. Here they are issued in
order, from one; zero names none. -/
structure KeyObserverId where
  index : Nat
  deriving DecidableEq, Inhabited, Repr

/-- What came of a key event. -/
structure KeyDispatch where
  /-- An action was bound to it. -/
  fired : Bool
  /-- The platform is asked not to handle the key itself. -/
  prevented : Bool
  deriving DecidableEq, Repr

/-- An action bound to a chord. -/
structure Binding (κ : Type) where
  /-- Bindings are numbered as they are made. -/
  number : Nat
  action : κ

/-- Of two bindings that may be there, the one made later. -/
def Binding.later? : Option (Binding κ) → Option (Binding κ) → Option (Binding κ)
  | some a, some b => if b.number < a.number then some a else some b
  | some a, none => some a
  | none, b => b

theorem Binding.later?_eq_some {a b : Option (Binding κ)} {c : Binding κ}
    (hc : later? a b = some c) : a = some c ∨ b = some c := by
  rw [later?.eq_def] at hc
  split at hc
  · split at hc
    · exact .inl hc
    · exact .inr hc
  · exact .inl hc
  · exact .inr hc

structure ShortcutRegistry (κ : Type) where
  /-- The bound chords, each of them once. -/
  bindings : List (Chord × Binding κ)
  /-- The number of bindings made so far. -/
  made : Nat
  /-- In the order in which they came. -/
  observers : List (KeyObserverId × κ)
  issued : Nat

namespace ShortcutRegistry

def empty : ShortcutRegistry κ := ⟨[], 0, [], 0⟩

def isBound (r : ShortcutRegistry κ) (c : Chord) : Bool := r.bindings.any (·.1 == c)

def commandCount (r : ShortcutRegistry κ) : Nat := r.bindings.length

def observerCount (r : ShortcutRegistry κ) : Nat := r.observers.length

/-- Takes the action off a chord. -/
def unbind (r : ShortcutRegistry κ) (c : Chord) : Bool × ShortcutRegistry κ :=
  (r.isBound c, { r with bindings := r.bindings.filter (·.1 != c) })

/-- Binds an action to a chord. The answer is whether it replaces another. -/
def bind (r : ShortcutRegistry κ) (c : Chord) (action : κ) : Bool × ShortcutRegistry κ :=
  let (replaced, r) := r.unbind c
  let number := r.made + 1
  (replaced, { r with bindings := (c, ⟨number, action⟩) :: r.bindings, made := number })

def addObserver (r : ShortcutRegistry κ) (observer : κ) : KeyObserverId × ShortcutRegistry κ :=
  let id : KeyObserverId := ⟨r.issued + 1⟩
  (id, { r with observers := r.observers ++ [(id, observer)], issued := r.issued + 1 })

def removeObserver (r : ShortcutRegistry κ) (id : KeyObserverId) : Bool × ShortcutRegistry κ :=
  (r.observers.any (·.1 == id), { r with observers := r.observers.filter (·.1 != id) })

/-- Forgets every action and observer. -/
def clear (r : ShortcutRegistry κ) : ShortcutRegistry κ :=
  { r with bindings := [], observers := [] }

/-- The binding for a press, by its input or by its code. If both chords are bound, the
one bound later counts. -/
def bindingFor? (r : ShortcutRegistry κ) (p : KeyPress) : Option (Binding κ) :=
  Binding.later? (r.bindings.lookup p.inputChord) (r.bindings.lookup p.codeChord)

/-- The action for a press. Only a key going down, and not one that repeats, has one. -/
def actionFor? (r : ShortcutRegistry κ) (p : KeyPress) : Option κ :=
  if p.isDown && !p.isRepeat then (r.bindingFor? p).map (·.action) else none

end ShortcutRegistry

/-- What a registry tells about itself. -/
structure ShortcutStatus where
  commands : Nat
  observers : Nat
  deriving DecidableEq

def ShortcutRegistry.status (r : ShortcutRegistry κ) : ShortcutStatus :=
  ⟨r.commandCount, r.observerCount⟩

/-- The registry in one line. -/
def ShortcutStatus.text (s : ShortcutStatus) : String :=
  s!"KeyCommandRegistry \x7b commands: {s.commands}, observers: {s.observers} \x7d"

end ViewHost
