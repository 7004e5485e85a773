import ViewHost.Host.Run
import ViewHost.Json.Writer
import ViewHost.Tree.Outline
import ViewHost.Wire.Outbound

/-!
# A recorded session

A small screen, and a session on it: two fingers, of which one is lifted and the
other cut off by a loss of focus, a mouse that hovers, and a shortcut. Replaying
it shows the screen, what is reported frame by frame, and the status line at the
end.
-/

namespace ViewHost.Replay

def root : Tag := ⟨1⟩
def list : Tag := ⟨2⟩
def row : Tag := ⟨3⟩
def badge : Tag := ⟨4⟩
def toast : Tag := ⟨5⟩

/-- The commands that build the screen. -/
def layout : List (Command Float32) :=
  [.create root .view,
    .setFrame root ⟨0, 0, 320, 480⟩,
    .create list .scrollView,
    .setFrame list ⟨0, 40, 320, 400⟩,
    .setClip list true,
    .setCursor list .default,
    .insert list root 0,
    .create row .text,
    .setFrame row ⟨0, 0, 320, 44⟩,
    .insert row list 0,
    .create badge .image,
    .setFrame badge ⟨280, 8, 28, 28⟩,
    .setHitSlop badge (.uniform (-8)),
    .setZ badge 1,
    .setCursor badge .pointer,
    .insert badge row 0,
    .create toast (.custom "toast"),
    .setFrame toast ⟨20, 420, 280, 40⟩,
    .setPointerEvents toast .boxNone,
    .insert toast root 1]

/-- The input of the session, in order. -/
def session : List (InputEvent Float32) :=
  let first := PointerId.ofContact 0
  let second := PointerId.ofContact 1
  [.pointer (.downPrimary .touch first ⟨10, 60⟩ (.ofMillis 2)),
    .pointer { PointerEvent.downPrimary .touch first ⟨30, 200⟩ (.ofMillis 9) with action := .move },
    .pointer (.downPrimary .touch second ⟨300, 50⟩ (.ofMillis 20)),
    .pointer (.upPrimary .touch first ⟨30, 500⟩ (.ofMillis 25)),
    .pointer (.cancelled .focusLost (.ofMillis 40)),
    .pointer (.ofMouse .move ⟨290, 50⟩ .none (.ofMillis 60)),
    .key
      { key := .character 'R', code := ⟨0x15⟩, isDown := true, modifiers := .command
        isRepeat := false, timestamp := .ofMillis 70 }]

/-- A run of the session, which writes lines as it goes. -/
abbrev Show := StateT (List String) (Host.Act Float32 Routine Script)

/-- An operation of the session's host. -/
def act {β : Type} (m : Host.Act Float32 Routine Script β) : Show β := liftM m

def say (line : String) : Show Unit := modify (· ++ [line])

/-- The session's callbacks do little. -/
def budget : Nat := 64

/-- Runs a frame and shows what it reports. -/
def frame (now : Timestamp) : Show Unit := do
  for item in ← act (Host.pump Script.behaviour budget now) do
    say (Wire.ofOutbound item).write

/-- The times of the frames after `last` up to a moment. -/
def framesUntil (last moment : Timestamp) : List Timestamp :=
  let step := FrameScheduler.defaultInterval
  (List.range ((moment.monus last).nanos / step.nanos)).filterMap fun n =>
    Duration.ofNanos? (last.nanos + (n + 1) * step.nanos)

/-- Plays the input, with the frames that fall due before each event, and
returns the time of the last frame. -/
def play : Timestamp → List (InputEvent Float32) → Show Timestamp
  | last, [] => return last
  | last, e :: rest => do
    let due := framesUntil last e.timestamp
    for now in due do frame now
    if ← act (Host.handleInput Script.behaviour budget e) then say "key handled, default prevented"
    play (due.getLast?.getD last) rest

/-- Replays the session. -/
def replay : Show Unit := do
  let (refused, host) := (← getThe (Host Float32 Routine Script)).applyAll layout
  set host
  match refused with
  | some e => say ("applying layout: " ++ e.message)
  | none =>
    say (host.tree.dump root)
    let reload := Chord.ofInput "r" .command
    let _ ← act (Host.takeStep budget (.bind reload "reload" [[.preventDefault]]))
    let _ ← act (Host.takeStep budget (.registerMeter "fps"))
    let last ← play .zero session
    match last.add? FrameScheduler.defaultInterval with
    | some now => frame now
    | none => return
    let host ← getThe (Host Float32 Routine Script)
    say { meter := .new, metrics := some host.metrics, hovered := host.hovered? : Hud }.statusLine
    act (Host.shutDown Script.behaviour budget)

/-- All that the replay writes. -/
def output : String :=
  match (replay.run []).run (Host.new root .default Script.empty) with
  | .ok (_, lines) _ => String.join (lines.map (· ++ "\n"))
  | .error _ _ => ""

end ViewHost.Replay
