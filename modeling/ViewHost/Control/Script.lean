import ViewHost.Control.Run
import ViewHost.Readout.FrameMeter

/-!
# Scripted callbacks

A scripted callback has a list of steps for its first call, another for its
second, and so on, and does nothing once they run out. Observers are known to
steps by name: a name stands for the observer that was registered under it last,
and goes on doing so when that observer is gone.

Scripts replay sessions: everything that happens is logged.
-/

namespace ViewHost

/-- A test of the key event that is being handled. -/
inductive PressTest where
  | input (text : String) (modifiers : Option Modifiers)
  | code (code : KeyCode) (modifiers : Option Modifiers)
  deriving DecidableEq

namespace PressTest

def holds (t : PressTest) (p : KeyPress) : Bool :=
  match t with
  | input text none => p.matchesInput text
  | input text (some m) => p.matchesInputWith text m
  | code c none => p.matchesCode c
  | code c (some m) => p.matchesCodeWith c m

end PressTest

/-- A step of a script. -/
inductive Step where
  | register (name : String) (acts : List (List Step))
  /-- Registers a frame meter. -/
  | registerMeter (name : String)
  | unregister (name : String)
  | pause (name : String) (on : Bool)
  | isPaused (name : String)
  | onPause (name : String) (acts : List (List Step))
  | onClock (acts : List (List Step))
  | tick (now : Timestamp)
  | clearFrames
  | interval
  | framesText
  | meter (name : String)
  | bind (chord : Chord) (name : String) (acts : List (List Step))
  | unbind (chord : Chord)
  | isBound (chord : Chord)
  | commandCount
  | observeKeys (name : String) (acts : List (List Step))
  | ignoreKeys (name : String)
  | dispatch (event : KeyEvent)
  | clearKeys
  | keysText
  | preventDefault
  | test (t : PressTest)

instance : Inhabited Step := ⟨.interval⟩

/-- What a step comes to. -/
inductive Outcome where
  | done
  | flag (b : Bool)
  | flag? (b : Option Bool)
  | ticked (tick : Option FrameTick)
  | dispatched (result : KeyDispatch)
  | span (d : Duration)
  | text (s : String)
  | count (n : Nat)
  | meter (m : Option FrameMeter)

/-- A scripted callback, or a frame meter. Each registration has a number of its
own. -/
inductive Routine where
  | scripted (name : String) (number : Nat)
  | meter (name : String) (number : Nat)
  deriving DecidableEq

/-- What is logged. -/
inductive Entry where
  /-- A scripted callback was called. -/
  | called (name : String) (signal : Signal)
  /-- A callback took a step. -/
  | acted (step : Step) (outcome : Outcome)
  /-- A window of a frame meter ended. -/
  | measured (name : String) (fps : Nat)

/-- A call of a routine that has not returned. -/
structure Routine.Call where
  /-- The steps still to take, the one under way in front. -/
  steps : List Step
  /-- The key event that the call is about. -/
  press : Option KeyPress

/-- The state of scripted callbacks. -/
structure Script where
  /-- Names given last come first. -/
  observers : List (String × ObserverId)
  keyObservers : List (String × KeyObserverId)
  meters : List (String × Nat)
  /-- What is left of the steps of each routine, call by call. -/
  acts : List (Nat × List (List Step))
  readings : List (Nat × FrameMeter)
  /-- Calls that have not returned, innermost first. -/
  calls : List Routine.Call
  /-- Newest first. -/
  log : List Entry
  issued : Nat

namespace Script

def empty : Script := ⟨[], [], [], [], [], [], [], 0⟩

def observer (s : Script) (name : String) : ObserverId := (s.observers.lookup name).getD ⟨0⟩

def keyObserver (s : Script) (name : String) : KeyObserverId :=
  (s.keyObservers.lookup name).getD ⟨0⟩

/-- Writes an entry into the log. -/
def note (s : Script) (e : Entry) : Script := { s with log := e :: s.log }

/-- A new routine with its steps. -/
def routine (s : Script) (name : String) (acts : List (List Step)) : Routine × Script :=
  let number := s.issued + 1
  (.scripted name number, { s with issued := number, acts := (number, acts) :: s.acts })

/-- The steps for the next call of a routine. -/
def nextSteps (s : Script) (number : Nat) : List Step × Script :=
  match s.acts.lookup number with
  | some (steps :: later) =>
    (steps, { s with acts := s.acts.map fun (n, a) => (n, if n = number then later else a) })
  | _ => ([], s)

/-- The key event that a signal is about. -/
def pressOf : Signal → Option KeyPress
  | .shortcut p _ => some p
  | .key _ p _ => some p
  | _ => none

def enter (r : Routine) (signal : Signal) (s : Script) : Script :=
  match r with
  | .scripted name number =>
    let (steps, s) := (s.note (.called name signal)).nextSteps number
    { s with calls := ⟨steps, pressOf signal⟩ :: s.calls }
  | .meter name number =>
    let s := { s with calls := ⟨[], none⟩ :: s.calls }
    match signal, s.readings.lookup number with
    | .tick _ tick, some m =>
      let (fps, m) := m.observe tick
      let s := { s with
        readings := s.readings.map fun (n, old) => (n, if n = number then m else old) }
      match fps with
      | some n => s.note (.measured name n)
      | none => s
    | _, _ => s

/-- The request that a step makes. -/
def ask (s : Script) : Step → Request Routine × Script
  | .register name acts =>
    let (r, s) := s.routine name acts
    (.register r, s)
  | .registerMeter name =>
    let number := s.issued + 1
    (.register (.meter name number), { s with
      issued := number
      meters := (name, number) :: s.meters
      readings := (number, .new) :: s.readings })
  | .unregister name => (.unregister (s.observer name), s)
  | .pause name on => (.setPaused (s.observer name) on, s)
  | .isPaused name => (.isPaused (s.observer name), s)
  | .onPause name acts =>
    let (r, s) := s.routine name acts
    (.onPause (s.observer name) r, s)
  | .onClock acts =>
    let (r, s) := s.routine "" acts
    (.onClock r, s)
  | .tick now => (.tick now, s)
  | .clearFrames => (.clearFrames, s)
  | .bind chord name acts =>
    let (r, s) := s.routine name acts
    (.bind chord r, s)
  | .unbind chord => (.unbind chord, s)
  | .isBound chord => (.isBound chord, s)
  | .observeKeys name acts =>
    let (r, s) := s.routine name acts
    (.observeKeys r, s)
  | .ignoreKeys name => (.ignoreKeys (s.keyObserver name), s)
  | .dispatch event => (.dispatch event, s)
  | .clearKeys => (.clearKeys, s)
  | .preventDefault => (.preventDefault, s)
  | .interval | .framesText | .meter _ | .commandCount | .keysText | .test _ => (.status, s)

/-- What a step comes to, given the answer to its request. -/
def settle (s : Script) (step : Step) (a : Answer) : Outcome × Script :=
  match step, a with
  | .register name _, .observer id | .registerMeter name, .observer id =>
    (.done, { s with observers := (name, id) :: s.observers })
  | .observeKeys name _, .keyObserver id =>
    (.done, { s with keyObservers := (name, id) :: s.keyObservers })
  | .interval, .status frames _ => (.span frames.interval, s)
  | .framesText, .status frames _ => (.text frames.text, s)
  | .meter name, _ => (.meter ((s.meters.lookup name).bind (s.readings.lookup ·)), s)
  | .commandCount, .status _ keys => (.count keys.commands, s)
  | .keysText, .status _ keys => (.text keys.text, s)
  | .test t, _ => (.flag ((s.calls.head?.bind (·.press)).any t.holds), s)
  | _, .flag b => (.flag b, s)
  | _, .flag? b => (.flag? b, s)
  | _, .ticked t => (.ticked t, s)
  | _, .dispatched d => (.dispatched d, s)
  | _, _ => (.done, s)

def request (_ : Routine) (s : Script) : Option (Request Routine × Script) :=
  match s.calls with
  | ⟨step :: _, _⟩ :: _ => some (s.ask step)
  | _ => none

def answer (_ : Routine) (a : Answer) (s : Script) : Script :=
  match s.calls with
  | ⟨step :: later, press⟩ :: outer =>
    let (outcome, s) := s.settle step a
    { s with calls := ⟨later, press⟩ :: outer }.note (.acted step outcome)
  | _ => s

def leave (_ : Routine) (s : Script) : Script := { s with calls := s.calls.tail }

/-- What scripted callbacks do. -/
def behaviour : Behaviour Routine Script := ⟨enter, request, answer, leave⟩

/-- Takes a step from outside any callback. -/
def take (budget : Nat) (step : Step) : Control Routine Script Outcome := do
  let (r, s) := (← get).client.ask step
  modify fun w => { w with client := s }
  let a ← Control.run behaviour budget r
  let (outcome, s) := (← get).client.settle step a
  modify fun w => { w with client := s }
  return outcome

/-- The log, oldest entry first, and the script with an empty one. -/
def takeLog (s : Script) : List Entry × Script := (s.log.reverse, { s with log := [] })

end Script

end ViewHost
