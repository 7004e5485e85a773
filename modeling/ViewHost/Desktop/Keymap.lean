import ViewHost.Input.Key
import ViewHost.Input.Pointer

/-!
# Desktop keys and buttons

A desktop window names keys in its own way: a logical key is what the layout
makes of the key, and a physical key is its place on the keyboard. Codes are
those of the usage tables for keyboards.
-/

namespace ViewHost.Desktop

/-- What a keyboard layout makes of a key. -/
inductive LogicalKey where
  | named (name : String)
  | character (text : String)
  | dead
  | unidentified
  deriving DecidableEq, Repr

inductive MouseButton where
  | left
  | right
  | middle
  | back
  | forward
  | other (n : Nat)
  deriving DecidableEq, Repr

/-- The buttons with a name. -/
def MouseButton.named : List (String × MouseButton) :=
  [("Left", left), ("Right", right), ("Middle", middle), ("Back", back), ("Forward", forward)]

/-- The modifier keys that a window tells of. -/
structure ModifierState where
  shift : Bool
  control : Bool
  alt : Bool
  command : Bool
  deriving DecidableEq, Repr

/-- The flags of the modifiers held. -/
def ModifierState.flags (s : ModifierState) : Modifiers :=
  [(s.shift, Modifiers.shift), (s.control, .control), (s.alt, .alt), (s.command, .command)].foldl
    (fun acc (held, m) => if held then acc.union m else acc) .none

/-- The pointer button of a mouse button. Buttons on the side have none. -/
def pointerButton? : MouseButton → Option PointerButton
  | .left => some .primary
  | .right => some .secondary
  | .middle => some .tertiary
  | _ => none

/-- The number of a function key. Those beyond the twelfth are not mapped. -/
def functionKey? (name : String) : Option Nat :=
  (List.range 12).findSome? fun i => if name == "F" ++ toString (i + 1) then some (i + 1) else none

/-- The key of a logical key, if it is one that views hear of. -/
def key? : LogicalKey → Option Key
  | .character text => text.toList.head?.map .character
  | .named name => Key.ofName? name <|> (functionKey? name).map fun n => .function n.toUInt8
  | .dead | .unidentified => none

/-- The position of a name in a row of keys. -/
def indexIn (row : List String) (name : String) : Option Nat := row.findIdx? (· == name)

/-- The letter keys in alphabetical order. -/
def letters : List String :=
  "ABCDEFGHIJKLMNOPQRSTUVWXYZ".toList.map fun c => "Key" ++ String.singleton c

/-- The digit keys as they stand on the keyboard. -/
def digits : List String := "1234567890".toList.map fun c => "Digit" ++ String.singleton c

/-- Codes of the remaining keys. -/
def otherCodes : List (String × UInt16) :=
  [("Enter", 0x28), ("Escape", 0x29), ("Backspace", 0x2a), ("Tab", 0x2b), ("Space", 0x2c),
    ("Minus", 0x2d), ("Equal", 0x2e), ("BracketLeft", 0x2f), ("BracketRight", 0x30),
    ("Backslash", 0x31), ("Semicolon", 0x33), ("Quote", 0x34), ("Backquote", 0x35),
    ("Comma", 0x36), ("Period", 0x37), ("Slash", 0x38), ("Home", 0x4a), ("PageUp", 0x4b),
    ("Delete", 0x4c), ("End", 0x4d), ("PageDown", 0x4e), ("ArrowRight", 0x4f),
    ("ArrowLeft", 0x50), ("ArrowDown", 0x51), ("ArrowUp", 0x52)]

/-- The code of a physical key; zero for keys without one. -/
def keyCode (name : String) : KeyCode :=
  match indexIn letters name, indexIn digits name, functionKey? name with
  | some i, _, _ => ⟨0x04 + i.toUInt16⟩
  | _, some i, _ => ⟨0x1e + i.toUInt16⟩
  | _, _, some n => ⟨0x39 + n.toUInt16⟩
  | _, _, _ => ⟨(otherCodes.lookup name).getD 0⟩

end ViewHost.Desktop
