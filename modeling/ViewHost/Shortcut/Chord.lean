import ViewHost.Input.Key

/-!
# Chords

A chord is what a shortcut is bound to: a key, by its input or by its code, with
exactly the given modifiers. Inputs are compared in lower case, and modifiers
that do not take part in shortcuts are ignored.
-/

namespace ViewHost

/-- The key of a chord. -/
inductive ChordKey where
  | input (text : String)
  | code (code : KeyCode)
  deriving DecidableEq, Repr

structure Chord where
  key : ChordKey
  modifiers : Modifiers
  deriving DecidableEq, Repr

namespace Chord

def ofInput (text : String) (modifiers : Modifiers) : Chord :=
  ⟨.input (Text.lower text), modifiers.forChord⟩

def ofCode (code : KeyCode) (modifiers : Modifiers) : Chord := ⟨.code code, modifiers.forChord⟩

end Chord

/-- A key event as shortcuts and observers see it. -/
structure KeyPress where
  input : String
  key : Key
  code : KeyCode
  isDown : Bool
  isRepeat : Bool
  modifiers : Modifiers
  timestamp : Timestamp
  deriving DecidableEq

namespace KeyPress

def ofEvent (e : KeyEvent) : KeyPress where
  input := e.key.input
  key := e.key
  code := e.code
  isDown := e.isDown
  isRepeat := e.isRepeat
  modifiers := e.modifiers
  timestamp := e.timestamp

def matchesInput (p : KeyPress) (text : String) : Bool := p.input == Text.lower text

def matchesInputWith (p : KeyPress) (text : String) (m : Modifiers) : Bool :=
  p.matchesInput text && p.modifiers.forChord == m.forChord

def matchesCode (p : KeyPress) (code : KeyCode) : Bool := p.code == code

def matchesCodeWith (p : KeyPress) (code : KeyCode) (m : Modifiers) : Bool :=
  p.matchesCode code && p.modifiers.forChord == m.forChord

/-- The chord that the press makes by its input. -/
def inputChord (p : KeyPress) : Chord := ⟨.input p.input, p.modifiers.forChord⟩

/-- The chord that the press makes by its code. -/
def codeChord (p : KeyPress) : Chord := ⟨.code p.code, p.modifiers.forChord⟩

end KeyPress

end ViewHost
