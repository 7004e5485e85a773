import ViewHost.Input.Modifiers
import ViewHost.Text.Lowercase
import ViewHost.Time.Duration

/-!
# Key input

A key event carries the key as the layout names it, a code that is the same on
every layout, and the modifiers held.
-/

namespace ViewHost

inductive Key where
  | character (c : Char)
  | enter
  | tab
  | backspace
  | delete
  | escape
  | arrowLeft
  | arrowRight
  | arrowUp
  | arrowDown
  | home
  | «end»
  | pageUp
  | pageDown
  | space
  | function (n : UInt8)
  deriving DecidableEq, Inhabited, Repr

namespace Key

/-- The keys with a name of their own. -/
def named : List (String × Key) :=
  [("Enter", enter), ("Tab", tab), ("Backspace", backspace), ("Delete", delete),
    ("Escape", escape), ("ArrowLeft", arrowLeft), ("ArrowRight", arrowRight),
    ("ArrowUp", arrowUp), ("ArrowDown", arrowDown), ("Home", home), ("End", «end»),
    ("PageUp", pageUp), ("PageDown", pageDown), ("Space", space)]

def ofName? (s : String) : Option Key := (named.find? (·.1 == s)).map (·.2)

def name? (k : Key) : Option String := (named.find? (·.2 == k)).map (·.1)

/-- What the key inputs, as shortcuts spell it: characters in lower case, and a
word for every other key. -/
def input : Key → String
  | character c => String.ofList (Text.lowerChar c)
  | enter => "enter"
  | tab => "tab"
  | backspace => "backspace"
  | delete => "delete"
  | escape => "escape"
  | arrowLeft => "left"
  | arrowRight => "right"
  | arrowUp => "up"
  | arrowDown => "down"
  | home => "home"
  | «end» => "end"
  | pageUp => "pageup"
  | pageDown => "pagedown"
  | space => " "
  | function n => "f" ++ toString n.toNat

end Key

/-- The code of a key, independent of the layout. -/
structure KeyCode where
  val : UInt16
  deriving DecidableEq, Inhabited, Repr

structure KeyEvent where
  key : Key
  code : KeyCode
  isDown : Bool
  modifiers : Modifiers
  /-- The key is held, and the platform repeats it. -/
  isRepeat : Bool
  timestamp : Timestamp
  deriving DecidableEq

end ViewHost
